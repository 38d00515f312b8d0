import LayeredDiagram.Proofs.Placement
import LayeredDiagram.Proofs.Routes
/-!
The staircases of edges between their bands. A chain runs down from the centre of its upper node to the centre of
its lower one, and it runs sideways only in the middle between two bands, below the upper node and above the lower
one.
-/

namespace LayeredDiagram

open LayeredDiagram.Group

variable {g : SizedGraph Rat} {place : String → Nat} {s : Solution Rat} {entries : List Entry}
variable {a : Arrangement Rat} {i j upper lower : Item Rat} {c : Chain Rat} {o : OrientedEdge String}
variable {e : SizedEdge Rat} {b b' : RankBand Rat} {spacing : Spacing Rat}

namespace Arrangement

theorem pairwise_rank_bands (spacing : Spacing Rat) (a : Arrangement Rat) :
    (a.bands spacing).Pairwise fun b c => b.rank < c.rank := by
  rw [← List.pairwise_map (f := RankBand.rank), bands, RankBand.map_rank_ofLayers]
  exact RankBand.pairwise_rank_present a.layers

theorem eq_of_rank_eq (hb : b ∈ a.bands spacing) (hb' : b' ∈ a.bands spacing) (h : b.rank = b'.rank) : b = b' := by
  by_contra hn
  cases rel_or_rel_of_pairwise (a.pairwise_rank_bands spacing) hb hb' hn <;> omega

end Arrangement

-- The sideways runs between two neighbouring ranks are in the middle between their bands.
theorem Arranged.midline_eq (h : Arranged entries place a) (spacing : Spacing Rat) (hi : i ∈ a.stock.items)
    (hj : j ∈ a.stock.items) (hr : j.rank = i.rank + 1) : RankBand.midline (a.bands spacing) i.rank =
      (a.bandBottom spacing i.rank + a.bandTop spacing j.rank) / 2 := by
  obtain ⟨b, hb, hbr, _, hbottom⟩ := h.exists_band_eq spacing hi
  obtain ⟨c, hc, hcr, htop, _⟩ := h.exists_band_eq spacing hj
  have hfind : (a.bands spacing).find? (·.rank == i.rank) = some b := by
    obtain ⟨b', hb'⟩ := Option.isSome_iff_exists.mp
      (List.find?_isSome.mpr ⟨b, hb, by simp [hbr]⟩ : ((a.bands spacing).find? (·.rank == i.rank)).isSome)
    have hr' : b'.rank = i.rank := by simpa using List.find?_some hb'
    rw [hb', Arrangement.eq_of_rank_eq (List.mem_of_find?_eq_some hb') hb (hr'.trans hbr.symm)]
  have hnext : (a.bands spacing).find? (i.rank < ·.rank) = some c := by
    obtain ⟨c', hc'⟩ := Option.isSome_iff_exists.mp
      (List.find?_isSome.mpr ⟨c, hc, by simp [hcr, hr]⟩ : ((a.bands spacing).find? (i.rank < ·.rank)).isSome)
    obtain ⟨hlt, above, below, heq, hn⟩ := List.find?_eq_some_iff_append.mp hc'
    rw [hc']
    by_contra hne
    have hp := a.pairwise_rank_bands spacing
    rw [heq] at hc hp
    have hbelow := (List.pairwise_cons.mp (List.pairwise_append.mp hp).right.left).left
    -- a band above the one found is not below the rank, and one below it is further down than the next rank
    rcases List.mem_append.mp hc with hm | hm
    · have := hn c hm
      simp only [Bool.not_eq_true', decide_eq_false_iff_not] at this
      omega
    · rcases List.mem_cons.mp hm with rfl | hm
      · exact hne rfl
      · have := hbelow c hm
        simp only [decide_eq_true_eq] at hlt
        omega
  simp only [RankBand.midline, hfind, hnext]
  rw [← hbottom, ← htop, RankBand.bottom, RankBand.top]

theorem zip_tail_concat {β : Type} (l : List β) (x y : β) :
    (l ++ [x] ++ [y]).zip (l ++ [x] ++ [y]).tail = (l ++ [x]).zip (l ++ [x]).tail ++ [(x, y)] := by
  induction l
  case nil => rfl
  case cons z l hi =>
    cases l
    case nil => rfl
    case cons w l => simpa using hi

namespace Solution

-- Where a chain arrives at the lower end of a segment: in its column, in the middle of the gap above it.
def arrival (s : Solution Rat) (seg : Segment Rat) : Point Rat :=
  ⟨s.x.value (.item seg.lower.slot), RankBand.midline s.bands seg.upper.rank⟩

end Solution

namespace Chain.Connects

variable {nodeItems : List (Item Rat)} {edges : List (SizedEdge Rat)} {seg : Segment Rat}
variable (h : Connects nodeItems edges o e upper lower c)
include h

theorem chainPoints_eq (s : Solution Rat) :
    s.chainPoints c = s.center upper :: c.segments.map s.arrival ++ [s.center lower] := by
  have hhead : c.items.head? = some upper := by simp [h.eq]
  have hlast : c.items.getLast? = some lower := by rw [h.eq, List.getLast?_concat]
  rw [Solution.chainPoints, hhead, hlast]
  rfl

-- The last segment leads to the lower end.
theorem exists_segments_eq : ∃ m last, c.segments = m ++ [last] ∧ last.lower = lower := by
  obtain ⟨m, i, hm⟩ : ∃ m i, upper :: bends e o.index upper lower = m ++ [i] :=
    ⟨_, _, (List.dropLast_append_getLast (by simp)).symm⟩
  have hitems : c.items = m ++ [i] ++ [lower] := by rw [← hm, h.eq]
  exact ⟨_, _, by rw [segments, hitems, zip_tail_concat, List.map_append, List.map_singleton], rfl⟩

-- With bends in its slanted segments, a chain is a polyline that turns in the middle of the gaps only.
theorem exists_withBends_eq (s : Solution Rat) :
    ∃ l, Route.withBends true (s.chainPoints c) = s.center upper :: l ++ [s.center lower] ∧
      ∀ p ∈ l, ∃ seg ∈ c.segments, p.y = (s.arrival seg).y := by
  obtain ⟨m, last, hseg, hlast⟩ := h.exists_segments_eq
  obtain ⟨l, hl, hy⟩ := Route.exists_withBends_eq (c.segments.map s.arrival) (s.center upper)
  have hnone : Route.bend? true (s.arrival last) (s.center lower) = none := by
    have hx : (s.arrival last).x = (s.center lower).x := by rw [Solution.arrival, hlast, Solution.center]
    rw [Route.bend?_eq_none_iff, hx, sub_self, abs_zero, Route.tolerance_eq]
    exact .inl (by norm_num)
  refine ⟨l, ?_, fun p hp => ?_⟩
  · have hpoints : s.center upper :: c.segments.map s.arrival =
        s.center upper :: m.map s.arrival ++ [s.arrival last] := by
      rw [hseg, List.map_append, List.map_singleton, List.cons_append]
    rw [h.chainPoints_eq, hpoints, Route.withBends_concat, hnone, ← hpoints, hl]
    simp
  · obtain ⟨q, hq, hpq⟩ := hy p hp
    obtain ⟨seg, hseg, rfl⟩ := List.mem_map.mp hq
    exact ⟨seg, hseg, hpq⟩

-- Segments lead down from rank to rank between both ends.
theorem rank_of_mem_segments (hr : upper.rank < lower.rank) (hs : seg ∈ c.segments) :
    seg.upper ∈ c.items ∧ seg.lower ∈ c.items ∧ upper.rank ≤ seg.upper.rank ∧
      seg.lower.rank = seg.upper.rank + 1 ∧ seg.lower.rank ≤ lower.rank := by
  obtain ⟨⟨i, j⟩, hij, rfl⟩ := List.mem_map.mp hs
  obtain ⟨l₁, l₂, he⟩ := mem_zip_tail_iff.mp hij
  have hj : j.rank = i.rank + 1 := List.isChain_iff_forall_rel_of_append_cons_cons.mp (h.isChain_rank hr) he
  have rank_mem {x : Item Rat} (hx : x ∈ c.items) : upper.rank ≤ x.rank ∧ x.rank ≤ lower.rank := by
    have hm := List.mem_map_of_mem (f := Item.rank) hx
    rw [h.map_rank_items hr, List.mem_range'_1] at hm
    omega
  have hi : i ∈ c.items := by simp [he]
  have hjm : j ∈ c.items := by simp [he]
  exact ⟨hi, hjm, (rank_mem hi).left, hj, (rank_mem hjm).right⟩

end Chain.Connects

namespace Stacked

variable (hs : Stacked g place s)
include hs

theorem mem_items_of_mem_chain (hc : c ∈ s.stock.chains) (hi : i ∈ c.items) : i ∈ s.stock.items := by
  rw [hs.stock_eq] at hc ⊢
  exact Stock.mem_items_of_mem_chain hc hi

-- Between the bands of different ranks is the gap between ranks.
theorem bandBottom_add_rank_le (hi : i ∈ s.stock.items) (hj : j ∈ s.stock.items) (hr : i.rank < j.rank) :
    s.bandBottom g.spacing i.rank + g.spacing.rank ≤ s.bandTop g.spacing j.rank := by
  have hb := hs.arranged.bandBottom_le_bandTop hs.spacing_nonneg hs.height_nonneg hi hj hr
  have := hs.closing_nonneg i.rank
  have := hs.headers_nonneg j.rank
  linarith

-- Bands follow each other in the order of their ranks.
theorem bandBottom_le_bandTop_of_lt (hi : i ∈ s.stock.items) (hj : j ∈ s.stock.items) (hr : i.rank < j.rank) :
    s.bandBottom g.spacing i.rank ≤ s.bandTop g.spacing j.rank := by
  have := hs.bandBottom_le_bandTop hi hj hr
  have := hs.closing_nonneg i.rank
  have := hs.headers_nonneg j.rank
  linarith

theorem bandBottom_le_bandBottom (hi : i ∈ s.stock.items) (hj : j ∈ s.stock.items) (hr : i.rank ≤ j.rank) :
    s.bandBottom g.spacing i.rank ≤ s.bandBottom g.spacing j.rank := by
  rcases Nat.lt_or_eq_of_le hr with hlt | heq
  · exact (hs.bandBottom_le_bandTop_of_lt hi hj hlt).trans (hs.bandTop_le_bandBottom j.rank)
  · rw [heq]

theorem bandTop_le_bandTop (hi : i ∈ s.stock.items) (hj : j ∈ s.stock.items) (hr : i.rank ≤ j.rank) :
    s.bandTop g.spacing i.rank ≤ s.bandTop g.spacing j.rank := by
  rcases Nat.lt_or_eq_of_le hr with hlt | heq
  · exact (hs.bandTop_le_bandBottom i.rank).trans (hs.bandBottom_le_bandTop_of_lt hi hj hlt)
  · rw [heq]

section Arrivals

variable {seg : Segment Rat} (hu : seg.upper ∈ s.stock.items) (hl : seg.lower ∈ s.stock.items)
variable (hr : seg.lower.rank = seg.upper.rank + 1)
include hu hl hr

theorem arrival_y :
    (s.arrival seg).y = (s.bandBottom g.spacing seg.upper.rank + s.bandTop g.spacing seg.lower.rank) / 2 := by
  rw [Solution.arrival, hs.bands_eq]
  exact hs.arranged.midline_eq g.spacing hu hl hr

-- A sideways run keeps between the bands of its ranks.
theorem arrival_between : s.bandBottom g.spacing seg.upper.rank ≤ (s.arrival seg).y ∧
    (s.arrival seg).y ≤ s.bandTop g.spacing seg.lower.rank := by
  have hle := hs.bandBottom_le_bandTop_of_lt hu hl (by omega)
  have hy := hs.arrival_y hu hl hr
  constructor <;> linarith

-- It is in the middle of the gap between them, and half of the gap away from what stands above and below.
theorem room_bottom_le_arrival (hj : j ∈ s.stock.items) (hle : j.rank ≤ seg.upper.rank) :
    (s.room j).bottom + g.spacing.rank / 2 ≤ (s.arrival seg).y := by
  have hroom := hs.room_le_bandBottom hj
  have hband := hs.bandBottom_le_bandBottom hj hu hle
  have hgap := hs.bandBottom_add_rank_le hu hl (by omega)
  have hy := hs.arrival_y hu hl hr
  linarith

theorem arrival_le_room_top (hj : j ∈ s.stock.items) (hle : seg.lower.rank ≤ j.rank) :
    (s.arrival seg).y + g.spacing.rank / 2 ≤ (s.room j).top := by
  have hroom := hs.bandTop_le_room hj
  have hband := hs.bandTop_le_bandTop hl hj hle
  have hgap := hs.bandBottom_add_rank_le hu hl (by omega)
  have hy := hs.arrival_y hu hl hr
  linarith

end Arrivals

variable {nodeItems : List (Item Rat)}

-- All sideways runs of a chain are below the upper end and above the lower one.
theorem arrival_mem (h : Chain.Connects nodeItems g.edges o e upper lower c) (hc : c ∈ s.stock.chains)
    (hr : upper.rank < lower.rank) {seg : Segment Rat} (hseg : seg ∈ c.segments) :
    s.bandBottom g.spacing upper.rank ≤ (s.arrival seg).y ∧ (s.arrival seg).y ≤ s.bandTop g.spacing lower.rank := by
  obtain ⟨hu, hl, hur, hlr, hlow⟩ := h.rank_of_mem_segments hr hseg
  have hu := hs.mem_items_of_mem_chain hc hu
  have hl := hs.mem_items_of_mem_chain hc hl
  have hupper := hs.mem_items_of_mem_chain hc (h.mem_items_iff.mpr (.inl rfl))
  have hlower := hs.mem_items_of_mem_chain hc (h.mem_items_iff.mpr (.inr (.inr rfl)))
  obtain ⟨hb, ht⟩ := hs.arrival_between hu hl hlr
  exact ⟨(hs.bandBottom_le_bandBottom hupper hu hur).trans hb, ht.trans (hs.bandTop_le_bandTop hl hlower hlow)⟩

end Stacked

end LayeredDiagram
