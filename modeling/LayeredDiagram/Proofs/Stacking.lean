import LayeredDiagram.Proofs.Separation
/-!
Bands of different ranks over exact arithmetic. Each of them lies below those of the ranks above, with the rank
gap and the room for the padding and the headers of groups between them, and it is as tall as its items.
-/

namespace LayeredDiagram

variable {spacing : Spacing Rat} {span : String → Nat × Nat} {layer : List (Item Rat)} {i j : Item Rat}

namespace RankBand

def top (b : RankBand Rat) : Rat :=
  b.center - b.height / 2

def bottom (b : RankBand Rat) : Rat :=
  b.center + b.height / 2

theorem height_le_tallest (hi : i ∈ layer) : i.height ≤ tallest layer := by
  have ⟨m, hm, hle⟩ := Scalar.exists_largest? (List.mem_map_of_mem (f := (·.height)) hi)
  simpa [tallest, hm] using hle

theorem tallest_nonneg (h : ∀ i ∈ layer, 0 ≤ i.height) : 0 ≤ tallest layer := by
  cases layer
  case nil => exact le_rfl
  case cons i layer => exact (h i List.mem_cons_self).trans (height_le_tallest List.mem_cons_self)

-- One band keeps its distance above another, given the items of each rank.
def Above (spacing : Spacing Rat) (span : String → Nat × Nat) (items : Nat → List (Item Rat))
    (b c : RankBand Rat) : Prop :=
  b.rank < c.rank ∧ b.bottom + closing span (items b.rank) * spacing.groupPadding + spacing.rank +
    headers spacing span (items c.rank) ≤ c.top

theorem headers_nonneg (hp : 0 ≤ spacing.groupPadding) (hh : 0 ≤ spacing.groupHeader) :
    0 ≤ headers spacing span layer :=
  mul_nonneg (Nat.cast_nonneg _) (add_nonneg hp hh)

-- By induction on the ranks below: a band is at least as far from the others as the one next to it.
theorem stack_pairwise {items : Nat → List (Item Rat)} {rest : List (Nat × List (Item Rat))} (above : RankBand Rat)
    (hs : ∀ q ∈ spacing.lengths, 0 ≤ q) (hi : ∀ p ∈ rest, items p.1 = p.2 ∧ ∀ i ∈ p.2, 0 ≤ i.height)
    (hr : (above.rank :: rest.map (·.1)).Pairwise (· < ·)) :
    (above :: stack spacing span above (closing span (items above.rank)) rest).Pairwise
      (Above spacing span items) := by
  induction rest generalizing above
  case nil => exact List.pairwise_singleton ..
  case cons p rest ih =>
    obtain ⟨r, layer⟩ := p
    obtain ⟨⟨hl, hh⟩, hrest⟩ := List.forall_mem_cons.mp hi
    obtain ⟨ha, hranks⟩ := List.pairwise_cons.mp hr
    have hg := hs spacing.rank (by simp [Spacing.lengths])
    have hp := hs spacing.groupPadding (by simp [Spacing.lengths])
    have hd := hs spacing.groupHeader (by simp [Spacing.lengths])
    simp only at hl hh
    subst hl
    -- the band below, as the recursion places it
    let next : RankBand Rat := ⟨r, above.center + above.height / 2 + spacing.rank +
      closing span (items above.rank) * spacing.groupPadding + headers spacing span (items r) +
      tallest (items r) / 2, tallest (items r)⟩
    have hnext : Above spacing span items above next := by
      refine ⟨ha r (by simp), ?_⟩
      simp only [next, top, bottom]
      linarith
    have ih := ih next hrest hranks
    obtain ⟨hn, _⟩ := List.pairwise_cons.mp ih
    refine List.pairwise_cons.mpr ⟨fun c hc => ?_, ih⟩
    cases List.mem_cons.mp hc
    case inl hc => exact hc ▸ hnext
    case inr hc =>
      obtain ⟨hlt, hle⟩ := hn c hc
      refine ⟨hnext.left.trans hlt, ?_⟩
      have htall := tallest_nonneg hh
      have hhead : 0 ≤ headers spacing span (items r) := headers_nonneg hp hd
      have hclose : 0 ≤ (closing span (items r) : Rat) * spacing.groupPadding :=
        mul_nonneg (Nat.cast_nonneg _) hp
      have hfirst := hnext.right
      simp only [next, top, bottom] at hle hfirst ⊢
      linarith

theorem stackAll_pairwise {items : Nat → List (Item Rat)} {all : List (Nat × List (Item Rat))}
    (hs : ∀ q ∈ spacing.lengths, 0 ≤ q) (hi : ∀ p ∈ all, items p.1 = p.2 ∧ ∀ i ∈ p.2, 0 ≤ i.height)
    (hr : (all.map (·.1)).Pairwise (· < ·)) :
    (stackAll spacing span all).Pairwise (Above spacing span items) := by
  cases all
  case nil => exact .nil
  case cons p rest =>
    obtain ⟨r, layer⟩ := p
    obtain ⟨⟨hl, _⟩, hrest⟩ := List.forall_mem_cons.mp hi
    simp only at hl
    subst hl
    exact stack_pairwise _ hs hrest hr

theorem height_of_mem_stackAll (items : Nat → List (Item Rat)) {all : List (Nat × List (Item Rat))}
    (hi : ∀ p ∈ all, items p.1 = p.2) : ∀ b ∈ stackAll spacing span all, b.height = tallest (items b.rank) := by
  have stack {rest : List (Nat × List (Item Rat))} (above : RankBand Rat) (closed : Nat)
      (hi : ∀ p ∈ rest, items p.1 = p.2) :
      ∀ b ∈ stack spacing span above closed rest, b.height = tallest (items b.rank) := by
    induction rest generalizing above closed
    case nil => simp [RankBand.stack]
    case cons p rest ih =>
      obtain ⟨r, layer⟩ := p
      obtain ⟨hl, hrest⟩ := List.forall_mem_cons.mp hi
      exact List.forall_mem_cons.mpr ⟨by rw [hl], ih _ _ hrest⟩
  cases all
  case nil => simp [stackAll]
  case cons p rest =>
    obtain ⟨hl, hrest⟩ := List.forall_mem_cons.mp hi
    exact List.forall_mem_cons.mpr ⟨by rw [hl], stack _ _ hrest⟩

theorem pairwise_rank_present (layers : Layers Rat) : ((present layers).map (·.1)).Pairwise (· < ·) := by
  have h : (layers.zipIdx.map (·.2)).Pairwise (· < ·) := by
    rw [List.zipIdx_map_snd]
    exact List.pairwise_lt_range'
  rw [present, List.map_map]
  exact h.sublist (List.filter_sublist.map _)

end RankBand

namespace Arrangement

-- The upper and the lower end of the band of a rank.
def bandTop (spacing : Spacing Rat) (a : Arrangement Rat) (r : Nat) : Rat :=
  (RankBand.center? (a.bands spacing) r).getD 0 - RankBand.tallest (a.layers[r]?.getD []) / 2

def bandBottom (spacing : Spacing Rat) (a : Arrangement Rat) (r : Nat) : Rat :=
  (RankBand.center? (a.bands spacing) r).getD 0 + RankBand.tallest (a.layers[r]?.getD []) / 2

end Arrangement

namespace Arranged

variable {entries : List Group.Entry} {place : String → Nat} {a : Arrangement Rat}

theorem items_of_present {r : Nat} (hp : (r, layer) ∈ RankBand.present a.layers) :
    a.layers[r]?.getD [] = layer := by
  rw [(RankBand.mem_present_iff.mp hp).left, Option.getD_some]

-- The band of a rank that holds items.
theorem exists_band_eq (h : Arranged entries place a) (spacing : Spacing Rat) (hi : i ∈ a.stock.items) :
    ∃ b ∈ a.bands spacing, b.rank = i.rank ∧ b.top = a.bandTop spacing i.rank ∧
      b.bottom = a.bandBottom spacing i.rank := by
  have ⟨c, hc, hcr⟩ := h.exists_band spacing hi
  have hs : ((a.bands spacing).find? (·.rank == i.rank)).isSome := List.find?_isSome.mpr ⟨c, hc, by simp [hcr]⟩
  have ⟨b, hb⟩ := Option.isSome_iff_exists.mp hs
  have hm := List.mem_of_find?_eq_some hb
  have hr : b.rank = i.rank := by simpa using List.find?_some hb
  have hh : b.height = RankBand.tallest (a.layers[b.rank]?.getD []) := by
    rw [Arrangement.bands, RankBand.ofLayers_eq] at hm
    exact RankBand.height_of_mem_stackAll (fun r => a.layers[r]?.getD []) (fun p hp => items_of_present hp) b hm
  have hcenter : (RankBand.center? (a.bands spacing) i.rank).getD 0 = b.center := by
    rw [RankBand.center?, hb, Option.map_some, Option.getD_some]
  refine ⟨b, hm, hr, ?_, ?_⟩
  · rw [RankBand.top, Arrangement.bandTop, hcenter, hh, hr]
  · rw [RankBand.bottom, Arrangement.bandBottom, hcenter, hh, hr]

-- Ranks with items lie below each other.
theorem bandBottom_le_bandTop (h : Arranged entries place a) (hs : ∀ q ∈ spacing.lengths, 0 ≤ q)
    (hh : ∀ i ∈ a.stock.items, 0 ≤ i.height) (hi : i ∈ a.stock.items) (hj : j ∈ a.stock.items)
    (hr : i.rank < j.rank) : a.bandBottom spacing i.rank +
      RankBand.closing a.stock.span (a.layers[i.rank]?.getD []) * spacing.groupPadding + spacing.rank +
      RankBand.headers spacing a.stock.span (a.layers[j.rank]?.getD []) ≤ a.bandTop spacing j.rank := by
  have ⟨b, hb, hbr, _, hbb⟩ := h.exists_band_eq spacing hi
  have ⟨c, hc, hcr, hct, _⟩ := h.exists_band_eq spacing hj
  have hp : (a.bands spacing).Pairwise
      (RankBand.Above spacing a.stock.span fun r => a.layers[r]?.getD []) := by
    rw [Arrangement.bands, RankBand.ofLayers_eq]
    refine RankBand.stackAll_pairwise hs (fun p hp => ⟨items_of_present hp, fun i hi => ?_⟩)
      (RankBand.pairwise_rank_present a.layers)
    have hl := items_of_present hp
    exact hh i (h.mem_layer_iff.mp (hl ▸ hi)).left
  have hbc : b ≠ c := by
    rintro rfl
    omega
  rcases rel_or_rel_of_pairwise hp hb hc hbc with ⟨_, hle⟩ | ⟨hlt, _⟩
  · rwa [hbr, hcr, hbb, hct] at hle
  · omega

theorem height_le (hi : i ∈ a.stock.items) (h : Arranged entries place a) :
    i.height ≤ RankBand.tallest (a.layers[i.rank]?.getD []) :=
  RankBand.height_le_tallest (h.mem_layer_iff.mpr ⟨hi, rfl⟩)

end Arranged

end LayeredDiagram
