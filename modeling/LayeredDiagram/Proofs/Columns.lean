import LayeredDiagram.Proofs.Corridors
import LayeredDiagram.Proofs.Overlap
import LayeredDiagram.Proofs.RouteEnds
/-!
Routes beside items. What is on another rank than those an edge goes through is above its whole route, or below it. On
a rank that the edge goes through, the route is in the column of the bend there, or of the node at its end, so that the
distance between neighbours keeps it away from every other item.
-/

namespace LayeredDiagram

open LayeredDiagram.Group Route

variable {g : SizedGraph Rat} {place : String → Nat} {s : Solution Rat}
variable {i j : Item Rat} {upper lower : SizedNode Rat} {c : Chain Rat} {e : SizedEdge Rat} {b : Bounds Rat}
variable {k : Nat} {corridor : Corridor} {q z : Point Rat} {d depth : Rat}

-- A corridor within the band of a rank.
structure Route.Corridor.WithinBand (spacing : Spacing Rat) (a : Arrangement Rat) (r : Nat) (corridor : Corridor) :
    Prop where
  top : a.bandTop spacing r ≤ corridor.top
  bottom : corridor.bottom ≤ a.bandBottom spacing r

namespace Stacked

variable (hs : Stacked g place s) (hj : j ∈ s.stock.items)
variable (hb : corridor.WithinBand g.spacing s.toArrangement j.rank)

section Arrivals

variable {seg : Segment Rat} (hu : seg.upper ∈ s.stock.items) (hl : seg.lower ∈ s.stock.items)
variable (hr : seg.lower.rank = seg.upper.rank + 1)

include hs hj hb hu hl hr

-- Sideways runs are above the corridor or below it.
theorem arrival_le_top (hle : seg.lower.rank ≤ j.rank) : (s.arrival seg).y ≤ corridor.top :=
  ((hs.arrival_between hu hl hr).right.trans (hs.bandTop_le_bandTop hl hj hle)).trans hb.top

theorem bottom_le_arrival (hle : j.rank ≤ seg.upper.rank) : corridor.bottom ≤ (s.arrival seg).y :=
  hb.bottom.trans ((hs.bandBottom_le_bandBottom hj hu hle).trans (hs.arrival_between hu hl hr).left)

end Arrivals

include hs hj hb

-- By induction on the items of a chain. A chain enters an item in its column, below everything above the item and
-- above everything below it.
theorem follows_arrivals {items : List (Item Rat)} (hm : ∀ i ∈ items, i ∈ s.stock.items)
    (hr : items.IsChain fun i j => j.rank = i.rank + 1) (hlow : ∃ i ∈ items, j.rank ≤ i.rank)
    (hcol : ∀ i ∈ items, i.rank = j.rank → s.x.value (.item i.slot) = corridor.column)
    (hz : corridor.bottom ≤ z.y) (weight : Rat) (hi : items.head? = some i) (hx : q.x = s.x.value (.item i.slot))
    (htop : i.rank < j.rank → q.y ≤ corridor.top) (hbottom : j.rank < i.rank → corridor.bottom ≤ q.y) :
    (q :: ((items.zip items.tail).map fun (i, j) => s.arrival ⟨i, j, weight⟩) ++ [z]).IsChain corridor.Follows := by
  induction items generalizing i q
  case nil => cases hi
  case cons i' items hi' =>
    obtain rfl : i' = i := Option.some.inj hi
    have hcolumn (h : i'.rank = j.rank) : q.x = corridor.column := hx.trans (hcol i' List.mem_cons_self h)
    cases items
    case nil =>
      have hle : j.rank ≤ i'.rank := by simpa using hlow
      refine .cons_cons ?_ (.singleton z)
      rcases hle.lt_or_eq with hlt | heq
      · exact .inr (.inl ⟨hbottom hlt, hz⟩)
      · exact .inr (.inr (hcolumn heq.symm))
    case cons k items =>
      obtain ⟨hik, hr⟩ := List.isChain_cons_cons.mp hr
      obtain ⟨him, hm⟩ := List.forall_mem_cons.mp hm
      have hkm := hm k List.mem_cons_self
      have habove : i'.rank < j.rank → (s.arrival ⟨i', k, weight⟩).y ≤ corridor.top := fun h =>
        hs.arrival_le_top hj hb him hkm hik (by simp only; omega)
      have hbelow : j.rank ≤ i'.rank → corridor.bottom ≤ (s.arrival ⟨i', k, weight⟩).y := fun h =>
        hs.bottom_le_arrival hj hb him hkm hik h
      have hlow' : ∃ i ∈ k :: items, j.rank ≤ i.rank := by
        obtain ⟨m, hm, hle⟩ := hlow
        rcases List.mem_cons.mp hm with rfl | hm
        · exact ⟨k, List.mem_cons_self, by omega⟩
        · exact ⟨m, hm, hle⟩
      refine .cons_cons ?_ (hi' hm hr hlow' (fun i hi => hcol i (List.mem_cons_of_mem _ hi)) rfl rfl
        (fun h => habove (by omega)) fun h => hbelow (by omega))
      rcases Nat.lt_trichotomy i'.rank j.rank with hlt | heq | hlt
      · exact .inl ⟨htop hlt, habove hlt⟩
      · exact .inr (.inr (hcolumn heq))
      · exact .inr (.inl ⟨hbottom hlt, hbelow hlt.le⟩)

end Stacked

-- A corridor beside an item on one of the ranks that an edge goes through, with what the edge has on this rank in its
-- column.
structure Beside (g : SizedGraph Rat) (s : Solution Rat) (upper lower : SizedNode Rat) (c : Chain Rat) (j : Item Rat)
    (corridor : Corridor) : Prop where
  item_mem : j ∈ s.stock.items
  band : corridor.WithinBand g.spacing s.toArrangement j.rank
  top : (s.center (g.itemOf upper)).y ≤ corridor.top
  bottom : corridor.bottom ≤ (s.center (g.itemOf lower)).y
  le_rank : (g.itemOf upper).rank ≤ j.rank
  rank_le : j.rank ≤ (g.itemOf lower).rank
  column : ∀ i ∈ c.items, i.rank = j.rank → s.x.value (.item i.slot) = corridor.column

namespace Beside

variable (hb : Beside g s upper lower c j corridor) (h : ChainOf g s e k upper lower c)
include hb h

theorem follows_chainPoints (hs : Stacked g place s) : (s.chainPoints c).IsChain corridor.Follows := by
  obtain ⟨o, hc⟩ := h.connects
  have hlower : g.itemOf lower ∈ c.items := hc.mem_items_iff.mpr (.inr (.inr rfl))
  rw [hc.chainPoints_eq, Chain.segments, List.map_map]
  refine hs.follows_arrivals hb.item_mem hb.band (fun i hi => hs.mem_items_of_mem_chain h.mem hi)
    (hc.isChain_rank h.rank_lt) ⟨_, hlower, hb.rank_le⟩ hb.column hb.bottom c.weight ?_ rfl (fun _ => hb.top) fun hlt => ?_
  · simp [hc.eq]
  · exact absurd hlt hb.le_rank.not_gt

theorem clear_chainPoints (hs : Solved g place s) : ∀ p ∈ s.chainPoints c, corridor.Clear p := by
  obtain ⟨o, hc⟩ := h.connects
  rw [hc.chainPoints_eq]
  refine List.forall_mem_append.mpr ⟨List.forall_mem_cons.mpr ⟨?upper, fun p hp => ?between⟩, ?lower⟩
  case upper => exact ⟨(hs.hasDecimals_center _).isLevel, .inl hb.top⟩
  case lower => exact List.forall_mem_singleton.mpr ⟨(hs.hasDecimals_center _).isLevel, .inr hb.bottom⟩
  case between =>
    obtain ⟨seg, hseg, rfl⟩ := List.mem_map.mp hp
    obtain ⟨hu, hl, _, hr, _⟩ := hc.rank_of_mem_segments h.rank_lt hseg
    have hu := hs.mem_items_of_mem_chain h.mem hu
    have hl := hs.mem_items_of_mem_chain h.mem hl
    refine ⟨hs.isLevel_arrival seg, ?_⟩
    by_cases hle : j.rank ≤ seg.upper.rank
    case pos => exact .inr (hs.bottom_le_arrival hb.item_mem hb.band hu hl hr hle)
    case neg => exact .inl (hs.arrival_le_top hb.item_mem hb.band hu hl hr (by omega))

-- Bends are at the levels of points of the chain.
theorem clear_withBends (hs : Solved g place s) : ∀ p ∈ withBends true (s.chainPoints c), corridor.Clear p := by
  have hclear := hb.clear_chainPoints h hs
  generalize s.chainPoints c = points at hclear
  cases points
  case nil => simp [withBends]
  case cons a l =>
    obtain ⟨ha, hl⟩ := List.forall_mem_cons.mp hclear
    obtain ⟨m, hm, hy⟩ := exists_withBends_eq l a
    rw [hm]
    refine List.forall_mem_cons.mpr ⟨ha, fun p hp => ?_⟩
    obtain ⟨q, hq, hpq⟩ := hy p hp
    rw [Corridor.Clear, hpq]
    exact hl q hq

theorem keeps_withBends (hs : Solved g place s) :
    (withBends true (s.chainPoints c)).IsChain (corridor.Keeps tolerance tolerance) :=
  Corridor.keeps_withBends (hb.clear_chainPoints h hs) (hb.follows_chainPoints h hs.toStacked)

end Beside

namespace Solution

variable {n : SizedNode Rat}

theorem beyond_one_iff : Beyond 1 (s.nodeBox g n) q ↔ (s.room (g.itemOf n)).bottom ≤ q.y := by
  simp only [Beyond, nodeBox, Box.around, room, SizedGraph.itemOf, one_mul]
  exact le_sub_iff_add_le'

theorem beyond_neg_one_iff : Beyond (-1) (s.nodeBox g n) q ↔ q.y ≤ (s.room (g.itemOf n)).top := by
  simp only [Beyond, nodeBox, Box.around, room, SizedGraph.itemOf, neg_one_mul, neg_sub]
  exact le_sub_comm

theorem center_inside (h : Thick (s.nodeBox g n)) : (s.room (g.itemOf n)).top < (s.center (g.itemOf n)).y ∧
    (s.center (g.itemOf n)).y < (s.room (g.itemOf n)).bottom := by
  have := h.right
  simp only [nodeBox, Box.around] at this
  simp only [room, SizedGraph.itemOf] at this ⊢
  constructor <;> linarith

end Solution

namespace Stacked

variable (hs : Stacked g place s)
include hs

-- A route is made from the polyline of its chain, upwards from the lower box if it is drawn against its direction.
theorem exists_route_eq (h : ChainOf g s e k upper lower c) (hu : Thick (s.nodeBox g upper))
    (hl : Thick (s.nodeBox g lower)) : ∃ sign first last l, Spans sign first last l ∧
      (∀ p ∈ l, ∃ seg ∈ c.segments, p.y = (s.arrival seg).y) ∧
      SizedGraph.route (g.boxes (g.rawOf s)) (g.rawOf s) k e =
        clip (some first) (some last) (simplify (first.center :: l ++ [last.center])) ∧
      ((sign = 1 ∧ first = s.nodeBox g upper ∧ last = s.nodeBox g lower ∧
          withBends true (s.chainPoints c) = first.center :: l ++ [last.center]) ∨
        (sign = -1 ∧ first = s.nodeBox g lower ∧ last = s.nodeBox g upper ∧
          (withBends true (s.chainPoints c)).reverse = first.center :: l ++ [last.center])) := by
  obtain ⟨l, hy, hw, hspans⟩ := hs.exists_spans h hu hl
  cases hs.route_eq h
  case inl hr =>
    obtain ⟨_, _, _, heq⟩ := hr
    exact ⟨1, _, _, l, hspans, hy, hw ▸ heq, .inl ⟨rfl, rfl, rfl, hw⟩⟩
  case inr hr =>
    obtain ⟨_, _, _, heq⟩ := hr
    have hreverse : (withBends true (s.chainPoints c)).reverse =
        (s.nodeBox g lower).center :: l.reverse ++ [(s.nodeBox g upper).center] := by rw [hw]; simp
    refine ⟨-1, _, _, l.reverse, hspans.reverse, fun p hp => hy p (List.mem_reverse.mp hp), hreverse ▸ heq, .inr ?_⟩
    exact ⟨rfl, rfl, rfl, hreverse⟩

-- No part of a route is above the bottom of the upper node, or below the top of the lower one.
theorem between_of_mem_route (h : ChainOf g s e k upper lower c) (hu : Thick (s.nodeBox g upper))
    (hl : Thick (s.nodeBox g lower)) (hq : q ∈ SizedGraph.route (g.boxes (g.rawOf s)) (g.rawOf s) k e) :
    (s.room (g.itemOf upper)).bottom ≤ q.y ∧ q.y ≤ (s.room (g.itemOf lower)).top := by
  obtain ⟨sign, first, last, l, hspans, _, heq, hends⟩ := hs.exists_route_eq h hu hl
  have haligned := aligned_withBends true (s.chainPoints c)
  rw [← Solution.beyond_one_iff, ← Solution.beyond_neg_one_iff]
  rw [heq] at hq
  rcases hends with ⟨rfl, rfl, rfl, hw⟩ | ⟨rfl, rfl, rfl, hw⟩
  · exact hspans.clip_between (hw ▸ haligned) q hq
  · have hrev := List.isChain_reverse.mpr (haligned.imp fun _ _ => Aligned.symm)
    have := hspans.clip_between (hw ▸ hrev) q hq
    rw [neg_neg] at this
    exact this.symm

theorem between_of_passes (h : ChainOf g s e k upper lower c) (hu : Thick (s.nodeBox g upper))
    (hl : Thick (s.nodeBox g lower)) (hq : Passes (SizedGraph.route (g.boxes (g.rawOf s)) (g.rawOf s) k e) q) :
    (s.room (g.itemOf upper)).bottom ≤ q.y ∧ q.y ≤ (s.room (g.itemOf lower)).top :=
  ⟨hq.le_y fun _ hp => (hs.between_of_mem_route h hu hl hp).left,
    hq.y_le fun _ hp => (hs.between_of_mem_route h hu hl hp).right⟩

-- An item at a level between two others is on a rank between theirs.
theorem rank_between {a b : Item Rat} {y : Rat} (ha : a ∈ s.stock.items) (hb : b ∈ s.stock.items)
    (hj : j ∈ s.stock.items) (hay : (s.room a).bottom ≤ y) (hyb : y ≤ (s.room b).top) (ht : (s.room j).top < y)
    (hy : y < (s.room j).bottom) : a.rank ≤ j.rank ∧ j.rank ≤ b.rank := by
  have hja := hs.room_top_le_bottom ha
  have hbj := hs.room_top_le_bottom hb
  constructor <;> by_contra hlt
  · have := hs.room_bottom_le_top hj ha (by omega)
    linarith
  · have := hs.room_bottom_le_top hb hj (by omega)
    linarith

end Stacked

-- On the ranks that it goes through, a route is near the columns of its chain.
theorem Beside.near_column (hb : Beside g s upper lower c j corridor) (hs : Solved g place s)
    (h : ChainOf g s e k upper lower c) (hu : Thick (s.nodeBox g upper)) (hl : Thick (s.nodeBox g lower))
    (hq : Passes (SizedGraph.route (g.boxes (g.rawOf s)) (g.rawOf s) k e) q) (ht : corridor.top < q.y)
    (hbottom : q.y < corridor.bottom) : |q.x - corridor.column| ≤ 7 * tolerance := by
  obtain ⟨sign, first, last, l, hspans, _, heq, hends⟩ := hs.exists_route_eq h hu hl
  have haligned := aligned_withBends true (s.chainPoints c)
  have hclear := hb.clear_withBends h hs
  have hkeeps := hb.keeps_withBends h hs
  have hupper := (hs.hasDecimals_center (g.itemOf upper)).add (hs.measured.nodes upper h.upper_mem).right.decimals.half
  have hlower := (hs.hasDecimals_center (g.itemOf lower)).sub (hs.measured.nodes lower h.lower_mem).right.decimals.half
  rw [heq] at hq
  rcases hends with ⟨rfl, rfl, rfl, hw⟩ | ⟨rfl, rfl, rfl, hw⟩
  · rw [hw] at haligned hclear hkeeps
    refine hq.near_column (hspans.keeps_clip ?_ ?_ hclear haligned hkeeps) ht hbottom
    · rw [one_mul]
      exact hupper.isLevel
    · rw [one_mul]
      exact hlower.isLevel
  · have haligned := List.isChain_reverse.mpr (haligned.imp fun _ _ => Aligned.symm)
    have hkeeps := List.isChain_reverse.mpr (hkeeps.imp fun _ _ => Corridor.Keeps.symm)
    have hclear : ∀ p ∈ (withBends true (s.chainPoints c)).reverse, corridor.Clear p := fun p hp =>
      hclear p (List.mem_reverse.mp hp)
    rw [hw] at haligned hclear hkeeps
    refine hq.near_column (hspans.keeps_clip ?_ ?_ hclear haligned hkeeps) ht hbottom
    · rw [neg_one_mul, ← sub_eq_add_neg]
      exact hlower.isLevel
    · rw [neg_one_mul, sub_neg_eq_add]
      exact hupper.isLevel

-- A rectangle without a rim on the inside of its border.
def Bounds.shrink (depth : Rat) (b : Bounds Rat) : Bounds Rat :=
  ⟨b.left + depth, b.top + depth, b.right - depth, b.bottom - depth⟩

namespace Chain.Connects

variable {nodeItems : List (Item Rat)} {edges : List (SizedEdge Rat)} {o : OrientedEdge String} {r : Nat}
variable {i' above below : Item Rat} (h : Connects nodeItems edges o e above below c) (hr : above.rank < below.rank)
include h hr

-- A chain has one item on each rank between its ends.
theorem exists_item (hle : above.rank ≤ r) (hle' : r ≤ below.rank) : ∃ i ∈ c.items, i.rank = r := by
  refine List.mem_map.mp ?_
  rw [h.map_rank_items hr, List.mem_range'_1]
  omega

theorem eq_of_rank_eq (hi : i ∈ c.items) (hi' : i' ∈ c.items) (hii : i.rank = i'.rank) : i = i' := by
  refine List.inj_on_of_nodup_map ?_ hi hi' hii
  rw [h.map_rank_items hr]
  exact List.nodup_range'

end Chain.Connects

-- The least sizes of nodes that routes are cut off at.
def SizedGraph.HasThickNodes (g : SizedGraph Rat) : Prop :=
  ∀ n ∈ g.nodes, 1 / 1000 ≤ n.width ∧ 1 / 1000 ≤ n.height

theorem SizedGraph.HasThickNodes.thick (h : g.HasThickNodes) {n : SizedNode Rat} (hn : n ∈ g.nodes) :
    Thick (s.nodeBox g n) := by
  obtain ⟨hw, hh⟩ := h n hn
  constructor <;> simp only [Solution.nodeBox, Box.around] <;> linarith

namespace Solved

variable (hs : Solved g place s) (h : ChainOf g s e k upper lower c)
variable (hd : g.spacing.Clearance (forest [] g.groups) d) (hj : j ∈ s.stock.items)
include hs h hd hj

-- Beside other items a chain keeps the clearance of its bends, or half the width of its nodes.
theorem column_apart (hw : ∀ n ∈ g.nodes, 2 * d ≤ n.width) (hi : i ∈ c.items) (hr : i.rank = j.rank) (hij : i ≠ j) :
    s.x.value (.item i.slot) + d ≤ j.leftEdge s.x ∨ j.rightEdge s.x + d ≤ s.x.value (.item i.slot) := by
  obtain ⟨o, hc⟩ := h.connects
  have him := hs.mem_items_of_mem_chain h.mem hi
  obtain ⟨hwi, _, he⟩ := hs.spaced.items i him
  have := hwi.nonneg
  have := he.nonneg
  have node {n : SizedNode Rat} (hnm : n ∈ g.nodes) (hi : i = g.itemOf n) :
      s.x.value (.item i.slot) + d ≤ j.leftEdge s.x ∨ j.rightEdge s.x + d ≤ s.x.value (.item i.slot) := by
    have hwidth : 2 * d ≤ i.width := hi ▸ hw n hnm
    have hor := hs.spaced.rightEdge_le_leftEdge_or hs.arranged him hj hr hij
    rw [Item.rightEdge, Item.leftEdge] at hor
    refine hor.imp (fun hle => ?_) fun hle => ?_
    · simp only [Item.leftEdge] at hle ⊢
      linarith
    · rw [Item.leftEdge] at hle
      linarith
  rcases hc.mem_items_iff.mp hi with hi | hi | hi
  · exact node h.upper_mem hi
  · have hdummy : i.isDummy := by
      rcases (Chain.bendAt_of_mem_bends (hc.inner_eq ▸ hi)).kind with ⟨hk, _⟩ | ⟨hk, _⟩ <;> simp [Item.isDummy, hk]
    have hor := hs.spaced.clearance_of_dummy hs.arranged hd him hj hr hij hdummy
    refine hor.imp (fun hle => ?_) fun hle => ?_
    · rw [Item.rightEdge] at hle
      linarith
    · rw [Item.leftEdge] at hle
      linarith
  · exact node h.lower_mem hi

variable (hn : g.HasThickNodes)
include hn

-- Beside an item that is no bend of the edge, the route keeps this distance up to the tolerance.
theorem apart_of_passes (hw : ∀ n ∈ g.nodes, 2 * d ≤ n.width) (hslot : ∀ r, j.slot ≠ .bend k r)
    (hq : Passes (SizedGraph.route (g.boxes (g.rawOf s)) (g.rawOf s) k e) q) (ht : (s.room j).top < q.y)
    (hb : q.y < (s.room j).bottom) :
    q.x + d ≤ j.leftEdge s.x + 7 * tolerance ∨ j.rightEdge s.x + d ≤ q.x + 7 * tolerance := by
  have hut := hn.thick (s := s) h.upper_mem
  have hlt := hn.thick (s := s) h.lower_mem
  obtain ⟨hqu, hql⟩ := hs.between_of_passes h hut hlt hq
  obtain ⟨o, hc⟩ := h.connects
  -- only what is beside the edge on a rank that it goes through can be in its way
  have hju : j ≠ g.itemOf upper := by
    rintro rfl
    linarith
  have hjl : j ≠ g.itemOf lower := by
    rintro rfl
    linarith
  obtain ⟨hle_rank, hrank_le⟩ :=
    hs.rank_between (hs.itemOf_mem h.upper_mem) (hs.itemOf_mem h.lower_mem) hj hqu hql ht hb
  obtain ⟨i, hi, hir⟩ := hc.exists_item h.rank_lt hle_rank hrank_le
  have hij : i ≠ j := by
    rintro rfl
    rcases hc.mem_items_iff.mp hi with hi | hi | hi
    · exact hju hi
    · have hbend := (Chain.bendAt_of_mem_bends (hc.inner_eq ▸ hi)).slot
      rw [show o.index = k by rw [← h.edge, hc.eq]] at hbend
      exact hslot _ hbend
    · exact hjl hi
  have htop : max (s.room j).top (s.center (g.itemOf upper)).y < q.y :=
    max_lt ht ((Solution.center_inside hut).right.trans_le hqu)
  have hbottom : q.y < min (s.room j).bottom (s.center (g.itemOf lower)).y :=
    lt_min hb (hql.trans_lt (Solution.center_inside hlt).left)
  let corridor : Corridor := ⟨_, _, s.x.value (.item i.slot), htop.trans hbottom⟩
  have hbeside : Beside g s upper lower c j corridor := {
    item_mem := hj
    band := ⟨(hs.bandTop_le_room hj).trans (le_max_left ..), (min_le_left ..).trans (hs.room_le_bandBottom hj)⟩
    top := le_max_right ..
    bottom := min_le_right ..
    le_rank := hle_rank
    rank_le := hrank_le
    column := fun i' hi' hr => by rw [hc.eq_of_rank_eq h.rank_lt hi' hi (hr.trans hir.symm)] }
  obtain ⟨hnl, hnr⟩ := abs_le.mp (hbeside.near_column hs h hut hlt hq htop hbottom)
  simp only [corridor] at hnl hnr
  rcases hs.column_apart h hd hj hw hi hir hij with hc | hc
  · exact .inl (by linarith)
  · exact .inr (by linarith)

-- Whatever stands in the room of such an item.
theorem not_interior_of_passes (hd' : d ≤ 1 / 2000) (hdepth : 0 ≤ depth) (hle : 7 * tolerance ≤ d + depth)
    (hb : b.Within (s.room j)) (hslot : ∀ r, j.slot ≠ .bend k r)
    (hq : Passes (SizedGraph.route (g.boxes (g.rawOf s)) (g.rawOf s) k e) q) : ¬(b.shrink depth).Interior q := by
  rintro ⟨hleft, hright, htop, hbottom⟩
  simp only [Bounds.shrink] at hleft hright htop hbottom
  have hw : ∀ n ∈ g.nodes, 2 * d ≤ n.width := fun n hnm => by linarith [(hn n hnm).left]
  have hbl := hb.left
  have hbr := hb.right
  have hbt := hb.top
  have hbb := hb.bottom
  have hor := hs.apart_of_passes h hd hj hn hw hslot hq (by linarith) (by linarith)
  simp only [Solution.room] at hbl hbr
  rcases hor with hc | hc <;> linarith

end Solved

end LayeredDiagram
