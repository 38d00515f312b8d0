import LayeredDiagram.Numeric.Scalar
import Mathlib.Algebra.Order.Field.Rat
import Mathlib.Data.Rat.Cast.Defs
import Mathlib.Tactic.Linarith
import Mathlib.Tactic.NormNum
import Mathlib.Tactic.Ring
/-!
Rational numbers with finitely many decimals, and the operations of the rational scalars in the terms of the
ordered field of rationals.
-/

namespace LayeredDiagram

variable {a b q : Rat} {k : Nat}

namespace Scalar

theorem larger_eq_max (a b : Rat) : larger a b = max a b := by
  unfold larger
  split
  case isTrue h => exact (max_eq_right h.le).symm
  case isFalse h => exact (max_eq_left (not_lt.mp h)).symm

theorem smaller_eq_min (a b : Rat) : smaller a b = min a b := by
  unfold smaller
  split
  case isTrue h => exact (min_eq_right h.le).symm
  case isFalse h => exact (min_eq_left (not_lt.mp h)).symm

theorem largest?_eq_max? (l : List Rat) : largest? l = l.max? := by
  cases l
  case nil => rfl
  case cons => rw [largest?, List.max?_cons', funext₂ larger_eq_max]

theorem smallest?_eq_min? (l : List Rat) : smallest? l = l.min? := by
  cases l
  case nil => rfl
  case cons => rw [smallest?, List.min?_cons', funext₂ smaller_eq_min]

theorem largest?_eq_some_iff {l : List Rat} : largest? l = some a ↔ a ∈ l ∧ ∀ b ∈ l, b ≤ a := by
  rw [largest?_eq_max?, List.max?_eq_some_iff]

theorem smallest?_eq_some_iff {l : List Rat} : smallest? l = some a ↔ a ∈ l ∧ ∀ b ∈ l, a ≤ b := by
  rw [smallest?_eq_min?, List.min?_eq_some_iff]

theorem exists_largest? {l : List Rat} (ha : a ∈ l) : ∃ m, largest? l = some m ∧ a ≤ m := by
  obtain ⟨m, hm⟩ := Option.isSome_iff_exists.mp (List.isSome_max?_of_mem ha)
  rw [← largest?_eq_max?] at hm
  exact ⟨m, hm, (largest?_eq_some_iff.mp hm).right a ha⟩

theorem exists_smallest? {l : List Rat} (ha : a ∈ l) : ∃ m, smallest? l = some m ∧ m ≤ a := by
  obtain ⟨m, hm⟩ := Option.isSome_iff_exists.mp (List.isSome_min?_of_mem ha)
  rw [← smallest?_eq_min?] at hm
  exact ⟨m, hm, (smallest?_eq_some_iff.mp hm).right a ha⟩

theorem mem_of_largest? {l : List Rat} (h : largest? l = some a) : a ∈ l :=
  (largest?_eq_some_iff.mp h).left

theorem mem_of_smallest? {l : List Rat} (h : smallest? l = some a) : a ∈ l :=
  (smallest?_eq_some_iff.mp h).left

theorem nearest_intCast (n : Int) : nearest (n : Rat) = n := by
  change Rounding.halfEven (n : Rat).num (n : Rat).den = n
  rw [Rat.num_intCast, Rat.den_intCast, Rounding.halfEven_one]

end Scalar

-- A number with at most so many decimals.
def HasDecimals (k : Nat) (q : Rat) : Prop :=
  ∃ n : Int, q * 10 ^ k = n

namespace HasDecimals

theorem natCast (k n : Nat) : HasDecimals k n :=
  ⟨n * 10 ^ k, by push_cast; rfl⟩

theorem add (ha : HasDecimals k a) (hb : HasDecimals k b) : HasDecimals k (a + b) := by
  have ⟨n, hn⟩ := ha
  have ⟨m, hm⟩ := hb
  exact ⟨n + m, by push_cast; rw [add_mul, hn, hm]⟩

theorem sub (ha : HasDecimals k a) (hb : HasDecimals k b) : HasDecimals k (a - b) := by
  have ⟨n, hn⟩ := ha
  have ⟨m, hm⟩ := hb
  exact ⟨n - m, by push_cast; rw [sub_mul, hn, hm]⟩

theorem max (ha : HasDecimals k a) (hb : HasDecimals k b) : HasDecimals k (max a b) := by
  cases max_choice a b
  case inl h => rwa [h]
  case inr h => rwa [h]

-- Half of a number has at most one decimal more.
theorem half (ha : HasDecimals k a) : HasDecimals (k + 1) (a / 2) := by
  have ⟨n, hn⟩ := ha
  refine ⟨5 * n, ?_⟩
  push_cast
  rw [← hn]
  ring

theorem succ (ha : HasDecimals k a) : HasDecimals (k + 1) a := by
  have ⟨n, hn⟩ := ha
  refine ⟨10 * n, ?_⟩
  push_cast
  rw [← hn]
  ring

theorem sixDecimals_eq (h : HasDecimals 6 q) : Scalar.sixDecimals q = q := by
  have ⟨n, hn⟩ := h
  have hn' : q * 1000000 = (n : Rat) := by
    rw [← hn]
    norm_num
  change Rounding.sixDecimals q = q
  rw [Rounding.sixDecimals, hn', Rat.num_intCast, Rat.den_intCast, Rounding.halfEven_one, ← hn']
  ring

end HasDecimals

end LayeredDiagram
