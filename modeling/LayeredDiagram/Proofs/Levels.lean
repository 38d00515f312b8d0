import LayeredDiagram.Proofs.Staircase
/-!
Levels at which routes turn. The bands have their centres at multiples of a hundred-millionth and the sideways runs
lie halfway between two such multiples at the most, so that levels which count as equal are equal.
-/

namespace LayeredDiagram

open LayeredDiagram.Group

variable {a b y z : Rat} {k : Nat}

namespace HasDecimals

theorem natCast_mul (n : Nat) (ha : HasDecimals k a) : HasDecimals k (n * a) := by
  obtain ⟨m, hm⟩ := ha
  refine ⟨n * m, ?_⟩
  push_cast
  rw [← hm]
  ring

-- Different numbers with so many decimals are not closer than a unit of the last one.
theorem eq_of_abs_lt (ha : HasDecimals k a) (hb : HasDecimals k b) (h : |a - b| * 10 ^ k < 1) : a = b := by
  obtain ⟨n, hn⟩ := ha
  obtain ⟨m, hm⟩ := hb
  have hpos : (0 : Rat) < 10 ^ k := by positivity
  have hnm : (a - b) * 10 ^ k = ((n - m : Int) : Rat) := by
    push_cast
    rw [sub_mul, hn, hm]
  have hlt : |n - m| < 1 := by
    rw [← abs_of_pos hpos, ← abs_mul, hnm] at h
    exact_mod_cast h
  have heq : n = m := sub_eq_zero.mp (Int.abs_lt_one_iff.mp hlt)
  rw [← heq] at hm
  exact mul_right_cancel₀ hpos.ne' (hn.trans hm.symm)

end HasDecimals

-- A level has at most eight decimals, or it is in the middle between two numbers that do.
def IsLevel (y : Rat) : Prop :=
  HasDecimals 8 (2 * y)

theorem HasDecimals.isLevel (h : HasDecimals 8 y) : IsLevel y := by
  rw [IsLevel, two_mul]
  exact h.add h

-- Levels that count as equal are equal.
theorem IsLevel.eq_of_near (hy : IsLevel y) (hz : IsLevel z) (h : |y - z| ≤ Route.tolerance) : y = z := by
  have hlt : |2 * y - 2 * z| * 10 ^ 8 < 1 := by
    rw [← mul_sub, abs_mul, abs_two]
    rw [Route.tolerance_eq] at h
    linarith
  have := hy.eq_of_abs_lt hz hlt
  linarith

namespace RankBand

variable {spacing : Spacing Rat} {span : String → Nat × Nat} {layer : List (Item Rat)} {band : RankBand Rat}
variable {rest : List (Nat × List (Item Rat))} {closed : Nat}

theorem hasDecimals_tallest (h : ∀ i ∈ layer, IsMeasure i.height) : HasDecimals 7 (tallest layer) := by
  unfold tallest
  cases hl : Scalar.largest? (layer.map (·.height))
  case none => exact .natCast 7 0
  case some m =>
    obtain ⟨i, hi, rfl⟩ := List.mem_map.mp (Scalar.mem_of_largest? hl)
    exact (h i hi).decimals

theorem hasDecimals_headers (hs : ∀ q ∈ spacing.lengths, IsMeasure q) : HasDecimals 8 (headers spacing span layer) :=
  .natCast_mul _ (((hs spacing.groupPadding (by simp [Spacing.lengths])).add
    (hs spacing.groupHeader (by simp [Spacing.lengths]))).decimals.succ)

-- A band with its centre and both its ends at levels.
structure Even (b : RankBand Rat) : Prop where
  center : HasDecimals 8 b.center
  height : HasDecimals 7 b.height

theorem even_stack (hs : ∀ q ∈ spacing.lengths, IsMeasure q) (hi : ∀ p ∈ rest, ∀ i ∈ p.2, IsMeasure i.height)
    (hb : Even band) : ∀ b ∈ stack spacing span band closed rest, Even b := by
  induction rest generalizing band closed
  case nil => simp [stack]
  case cons p rest ih =>
    obtain ⟨r, layer⟩ := p
    obtain ⟨hl, hrest⟩ := List.forall_mem_cons.mp hi
    have htall := hasDecimals_tallest hl
    have hrank := (hs spacing.rank (by simp [Spacing.lengths])).decimals.succ
    have hpad := (hs spacing.groupPadding (by simp [Spacing.lengths])).decimals.succ
    have hcenter : Even ⟨r, band.center + band.height / 2 + spacing.rank + closed * spacing.groupPadding +
        headers spacing span layer + tallest layer / 2, tallest layer⟩ :=
      ⟨((((hb.center.add hb.height.half).add hrank).add (hpad.natCast_mul closed)).add (hasDecimals_headers hs)).add
        htall.half, htall⟩
    exact List.forall_mem_cons.mpr ⟨hcenter, ih hrest hcenter⟩

theorem even_stackAll (hs : ∀ q ∈ spacing.lengths, IsMeasure q) (hi : ∀ p ∈ rest, ∀ i ∈ p.2, IsMeasure i.height) :
    ∀ b ∈ stackAll spacing span rest, Even b := by
  cases rest
  case nil => simp [stackAll]
  case cons p rest =>
    obtain ⟨r, layer⟩ := p
    obtain ⟨hl, hrest⟩ := List.forall_mem_cons.mp hi
    have htall := hasDecimals_tallest hl
    have hfirst : Even ⟨r, headers spacing span layer + tallest layer / 2, tallest layer⟩ :=
      ⟨(hasDecimals_headers hs).add htall.half, htall⟩
    exact List.forall_mem_cons.mpr ⟨hfirst, even_stack hs hrest hfirst⟩

theorem hasDecimals_center? {bands : List (RankBand Rat)} (h : ∀ b ∈ bands, Even b) (r : Nat) :
    HasDecimals 8 ((center? bands r).getD 0) := by
  unfold center?
  cases hf : bands.find? (·.rank == r)
  case none => exact .natCast 8 0
  case some b => exact (h b (List.mem_of_find?_eq_some hf)).center

theorem isLevel_midline {bands : List (RankBand Rat)} (h : ∀ b ∈ bands, Even b) (r : Nat) : IsLevel (midline bands r) := by
  unfold midline
  split
  case h_1 upper lower hu hl =>
    have hu := h upper (List.mem_of_find?_eq_some hu)
    have hl := h lower (List.mem_of_find?_eq_some hl)
    rw [IsLevel, mul_div_cancel₀ _ two_ne_zero]
    exact (hu.center.add hu.height.half).add (hl.center.sub hl.height.half)
  case h_2 => exact (HasDecimals.natCast 8 0).isLevel

end RankBand

namespace Solved

variable {g : SizedGraph Rat} {place : String → Nat} {s : Solution Rat} {i : Item Rat} {n : SizedNode Rat}
variable (hs : Solved g place s)
include hs

theorem even_bands : ∀ b ∈ s.bands, RankBand.Even b := by
  rw [hs.bands_eq, Arrangement.bands, RankBand.ofLayers_eq]
  refine RankBand.even_stackAll hs.measured.spacing fun p hp i hi => ?_
  have hl := Arranged.items_of_present hp
  exact (hs.spaced.items i (hs.arranged.mem_layer_iff.mp (hl ▸ hi)).left).right.left

theorem hasDecimals_center (i : Item Rat) : HasDecimals 8 (s.center i).y :=
  RankBand.hasDecimals_center? hs.even_bands i.rank

theorem isLevel_arrival (seg : Segment Rat) : IsLevel (s.arrival seg).y :=
  RankBand.isLevel_midline hs.even_bands seg.upper.rank

end Solved

end LayeredDiagram
