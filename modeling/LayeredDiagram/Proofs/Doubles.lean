import LayeredDiagram.Numeric.Binary
import Mathlib
/-!
Sums of doubles. A sum is rounded to a double, which may be more than the sum, but it never passes a double above the
sum: where the bits that are dropped are not all zero, rounding up leads to the next mantissa at most, and that is
still below the bound.
-/

namespace LayeredDiagram.Double

open Float.Model Float.Model.UnpackedFloat

variable {m n k : Nat} {e t : Int}

-- The number with a mantissa and an exponent.
def worth (m : Nat) (e : Int) : Rat :=
  m * 2 ^ e

theorem worth_add_exponent (m : Nat) (e : Int) (k : Nat) : worth m (e + k) = worth (m * 2 ^ k) e := by
  rw [worth, worth, zpow_add₀ (by norm_num), zpow_natCast]
  push_cast
  ring

theorem worth_le_iff : worth m e ≤ worth n e ↔ m ≤ n := by
  rw [worth, worth, mul_le_mul_iff_left₀ (by positivity), Nat.cast_le]

theorem worth_lt_iff : worth m e < worth n e ↔ m < n := by
  rw [← not_le, worth_le_iff, not_le]

theorem worth_add (m n : Nat) (e : Int) : worth m e + worth n e = worth (m + n) e := by
  simp only [worth]
  push_cast
  ring

section Rounding

theorem worth_decreaseExponent (m : Nat) (e t : Int) :
    worth (decreaseExponent m e t).1 (decreaseExponent m e t).2 = worth m e ∧ (decreaseExponent m e t).2 = min e t := by
  have hle : ((e - t).toNat : Int) = max (e - t) 0 := Int.toNat_eq_max _
  refine ⟨?_, ?_⟩
  · rw [decreaseExponent, Nat.shiftLeft_eq, ← worth_add_exponent, sub_add_cancel]
  · simp only [decreaseExponent]
    omega

-- What a mantissa loses by a shift is remembered in two bits.
theorem shift_exact (m k : Nat) : ∃ round sticky,
    ExtendedMantissa.ofMantissaAndAccuracy m .exact >>> k = ⟨m / 2 ^ k, round, sticky⟩ ∧
      (2 ^ k ∣ m → round = false ∧ sticky = false) := by
  induction k
  case zero =>
    exact ⟨false, false, by simp [HShiftRight.hShiftRight, Nat.repeat, ExtendedMantissa.ofMantissaAndAccuracy]⟩
  case succ k hi =>
    obtain ⟨round, sticky, heq, hbits⟩ := hi
    refine ⟨m / 2 ^ k % 2 != 0, round || sticky, ?_, fun hdvd => ?_⟩
    · change ExtendedMantissa.shiftRightOne (ExtendedMantissa.ofMantissaAndAccuracy m .exact >>> k) = _
      rw [heq, ExtendedMantissa.shiftRightOne, Nat.div_div_eq_div_mul, pow_succ]
    · obtain ⟨c, rfl⟩ := hdvd
      obtain ⟨rfl, rfl⟩ := hbits ⟨2 * c, by ring⟩
      have : 2 ^ (k + 1) * c / 2 ^ k = 2 * c := Nat.div_eq_of_eq_mul_right (by positivity) (by ring)
      simp [this]

theorem mantissa_le_roundedMantissa (em : ExtendedMantissa) :
    em.mantissa ≤ em.roundedMantissa ∧ em.roundedMantissa ≤ em.mantissa + 1 := by
  obtain ⟨m, round, sticky⟩ := em
  cases round <;> cases sticky <;>
    simp only [ExtendedMantissa.roundedMantissa, ExtendedMantissa.accuracy, Accuracy.roundToNearestEven] <;> omega

theorem roundedMantissa_le (h : m ≤ n * 2 ^ k) :
    (ExtendedMantissa.ofMantissaAndAccuracy m .exact >>> k).roundedMantissa ≤ n := by
  obtain ⟨round, sticky, heq, hbits⟩ := shift_exact m k
  rcases h.lt_or_eq with hlt | rfl
  · have hle := (mantissa_le_roundedMantissa (ExtendedMantissa.ofMantissaAndAccuracy m .exact >>> k)).right
    rw [heq] at hle ⊢
    exact hle.trans ((Nat.div_lt_iff_lt_mul (by positivity)).mpr hlt)
  · obtain ⟨rfl, rfl⟩ := hbits ⟨n, Nat.mul_comm ..⟩
    rw [heq, Nat.mul_div_cancel _ (by positivity)]
    rfl

-- A bound that is a double: no exponent that is needed for a number below it is greater.
structure Bound (n : Nat) (t : Int) : Prop where
  lt : n < 2 ^ 53
  le : -1074 ≤ t

variable (hb : Bound n t) (he : e ≤ t) (h : worth m e ≤ worth n t)
include hb he h

theorem Bound.targetExponent_le : Format.binary64.targetExponent (totalExponent m e) ≤ t := by
  have hlog : (m.log2 : Int) + e < 53 + t := by
    by_cases hm : m = 0
    case pos =>
      subst hm
      simp only [Nat.log2_zero]
      omega
    case neg =>
      have hpow : (2 : Rat) ^ ((m.log2 : Int) + e) < 2 ^ (53 + t) :=
        calc (2 : Rat) ^ ((m.log2 : Int) + e)
          _ = worth (2 ^ m.log2) e := by
            rw [worth, zpow_add₀ (by norm_num), zpow_natCast]
            push_cast
            rfl
          _ ≤ worth m e := worth_le_iff.mpr (Nat.log2_self_le hm)
          _ ≤ worth n t := h
          _ < worth (2 ^ 53) t := worth_lt_iff.mpr hb.lt
          _ = 2 ^ (53 + t) := by
            rw [worth, zpow_add₀ (by norm_num)]
            norm_num
      exact (zpow_lt_zpow_iff_right₀ (by norm_num)).mp hpow
  have hle := hb.le
  simp only [Format.targetExponent, totalExponent, Format.mantissaBits, Format.minExponent]
  omega

-- Shifted to the exponent of a double, a number is rounded to the bound at most.
theorem Bound.shiftToTargetExponent :
    let shifted := shiftToTargetExponent Format.binary64 m e .exact
    shifted.2 ≤ t ∧ worth shifted.1.roundedMantissa shifted.2 ≤ worth n t := by
  simp only [Float.Model.UnpackedFloat.shiftToTargetExponent, shiftToExponent]
  have htarget := hb.targetExponent_le he h
  generalize Format.binary64.targetExponent (totalExponent m e) = target at htarget ⊢
  obtain ⟨k, hk⟩ : ∃ k, k = (target - e).toNat := ⟨_, rfl⟩
  obtain ⟨j, hj⟩ : ∃ j : Nat, t = e + k + j := ⟨(t - (e + k)).toNat, by omega⟩
  have hn : worth n t = worth (n * 2 ^ j) (e + k) := hj ▸ worth_add_exponent n (e + k) j
  rw [hn, worth_add_exponent, worth_le_iff] at h
  rw [← hk, hn]
  exact ⟨by omega, worth_le_iff.mpr (roundedMantissa_le h)⟩

omit hb he h

-- Not negative and at most some bound, with an exponent that is no greater.
def AtMost (n : Nat) (t : Int) : UnpackedFloat → Prop
  | .zero _ => True
  | .finite .positive m e _ => e ≤ t ∧ worth m e ≤ worth n t
  | _ => False

include hb he h

-- After rounding, a mantissa that has become too long is shifted once more.
theorem Bound.roundWithAccuracy : AtMost n t (roundWithAccuracy Format.binary64 .positive m e .exact) := by
  obtain ⟨hfirst, hrounded⟩ := hb.shiftToTargetExponent he h
  obtain ⟨hsecond, hfinal⟩ := hb.shiftToTargetExponent hfirst hrounded
  simp only [Float.Model.UnpackedFloat.roundWithAccuracy]
  split
  case isTrue => trivial
  case isFalse => exact ⟨hsecond, (worth_le_iff.mpr (mantissa_le_roundedMantissa _).left).trans hfinal⟩

theorem Bound.round : AtMost n t (round Format.binary64 .positive m e) := by
  obtain ⟨hworth, hexponent⟩ := worth_decreaseExponent m e (Format.binary64.targetExponent (totalExponent m e))
  exact hb.roundWithAccuracy (hexponent.trans_le ((min_le_left ..).trans he)) (hworth.trans_le h)

theorem Bound.normalize : AtMost n t (normalize Format.binary64 m e .positive) := by
  rcases m.eq_zero_or_pos with rfl | hm
  · trivial
  · have hgt : compare (m : Int) 0 = .gt := Int.compare_eq_gt.mpr (by omega)
    rw [Float.Model.UnpackedFloat.normalize, hgt]
    exact hb.round he h

omit he h

theorem Bound.add {e' : Int} {hm : 0 < m} {hk : 0 < k} (he : min e e' ≤ t) (h : worth m e + worth k e' ≤ worth n t) :
    AtMost n t (add Format.binary64 (.finite .positive m e hm) (.finite .positive k e' hk)) := by
  obtain ⟨hm', hme⟩ := worth_decreaseExponent m e (min e e')
  obtain ⟨hk', hke⟩ := worth_decreaseExponent k e' (min e e')
  rw [min_eq_right (min_le_left ..)] at hme
  rw [min_eq_right (min_le_right ..)] at hke
  rw [hme] at hm'
  rw [hke] at hk'
  simp only [Float.Model.UnpackedFloat.add, Sign.apply]
  generalize (decreaseExponent m e (min e e')).1 = m' at hm' ⊢
  generalize (decreaseExponent k e' (min e e')).1 = k' at hk' ⊢
  rw [← hm', ← hk', worth_add] at h
  exact_mod_cast hb.normalize he h

end Rounding

section Reading

variable {x : Float} {u : UnpackedFloat} {N biased fraction : Nat}

theorem floor_le (he : e ≤ 0) (h : worth m e < N + 1) : Binary.floor ⟨false, m, e⟩ ≤ N := by
  obtain ⟨k, rfl⟩ := Int.exists_eq_neg_ofNat he
  have hlt : m < (N + 1) * 2 ^ k := by
    have hpos : (0 : Rat) < 2 ^ k := by positivity
    rw [worth, zpow_neg, zpow_natCast, ← div_eq_mul_inv, div_lt_iff₀ hpos] at h
    exact_mod_cast h
  have hle : m / 2 ^ k ≤ N := Nat.le_of_lt_succ ((Nat.div_lt_iff_lt_mul (by positivity)).mpr hlt)
  simp only [Binary.floor, Binary.fraction, Rounding.down, Bool.false_eq_true, if_false, neg_neg]
  rw [Int.toNat_eq_zero.mpr he, Int.toNat_natCast, Nat.shiftLeft_zero, Nat.shiftLeft_eq, one_mul]
  exact_mod_cast hle

theorem toNat_packComponents (sign : Sign) (exponent : BitVec 11) (mantissa : BitVec 52) :
    (packComponents Format.binary64 sign exponent mantissa).toNat =
      sign.toBitVec.toNat * 2 ^ 63 + exponent.toNat * 2 ^ 52 + mantissa.toNat := by
  rw [packComponents, BitVec.toNat_append, ← Nat.shiftLeft_add_eq_or_of_lt mantissa.isLt, BitVec.toNat_append,
    ← Nat.shiftLeft_add_eq_or_of_lt exponent.isLt, Nat.shiftLeft_eq, Nat.shiftLeft_eq]
  ring

-- A double without a sign, from its exponent and its mantissa as they are stored.
theorem ofFloat_eq (hx : x.toBits.toNat = biased * 2 ^ 52 + fraction) (hb : biased < 2 ^ 11) (hf : fraction < 2 ^ 52) :
    Binary.ofFloat x =
      if biased = 0 then ⟨false, fraction, -1074⟩ else ⟨false, 2 ^ 52 + fraction, (biased : Int) - 1075⟩ := by
  have hsign : x.toBits.toNat >>> 63 = 0 := by
    rw [hx, Nat.shiftRight_eq_div_pow]
    omega
  have hbiased : (x.toBits.toNat >>> 52) % 0x800 = biased := by
    rw [hx, Nat.shiftRight_eq_div_pow]
    omega
  have hfraction : x.toBits.toNat % Binary.leastNormal = fraction := by
    rw [hx, Binary.leastNormal]
    omega
  simp only [Binary.ofFloat, hsign, hbiased, hfraction]
  rfl

theorem floor_subnormal_le (hf : fraction < 2 ^ 52) : Binary.floor ⟨false, fraction, -1074⟩ ≤ N := by
  refine floor_le (by norm_num) (lt_of_lt_of_le ?_ (show (1 : Rat) ≤ N + 1 by simp))
  have hpow : (2 : Rat) ^ (-1074 : Int) ≤ 2 ^ (-52 : Int) := zpow_le_zpow_right₀ (by norm_num) (by norm_num)
  calc worth fraction (-1074)
    _ ≤ worth fraction (-52) := mul_le_mul_of_nonneg_left hpow (Nat.cast_nonneg _)
    _ < worth (2 ^ 52) (-52) := worth_lt_iff.mpr hf
    _ = 1 := by norm_num [worth]

-- A mantissa of full length is stored without its first bit, and an exponent only with such a mantissa.
theorem toNat_pack (hm : 0 < m) (he : e ≤ 0) : (UnpackedFloat.pack Format.binary64 (.finite .positive m e hm)).toNat =
    (if m.log2 + 1 = 53 then (e + 1075).toNat else 0) * 2 ^ 52 + m % 2 ^ 52 := by
  have hexponent : (e + Format.binary64.exponentBias + Format.binary64.mantissaBitsWithoutImplicit).toNat =
      (e + 1075).toNat := by
    simp only [Format.exponentBias]
    omega
  have hfinite : ¬2 ^ Format.binary64.exponentBits ≤ (e + 1075).toNat + 1 := by
    simp only
    omega
  have hpack : UnpackedFloat.pack Format.binary64 (.finite .positive m e hm) =
      if m.log2 + 1 = 53 then packComponents Format.binary64 .positive (.ofNat 11 (e + 1075).toNat) (.ofNat 52 m)
      else packComponents Format.binary64 .positive 0 (.ofNat 52 m) := by
    simp only [UnpackedFloat.pack, hexponent, if_neg hfinite]
    rfl
  have hsign : Sign.positive.toBitVec.toNat = 0 := rfl
  rw [hpack]
  split
  case isTrue =>
    rw [toNat_packComponents, hsign, Nat.zero_mul, Nat.zero_add, BitVec.toNat_ofNat, BitVec.toNat_ofNat,
      Nat.mod_eq_of_lt (by omega : (e + 1075).toNat < 2 ^ 11)]
  case isFalse =>
    rw [toNat_packComponents, hsign, BitVec.toNat_ofNat]
    rfl

-- A sum that is at most a bound is still so after it was packed and read off again.
theorem floor_pack_le (h : AtMost n t u) (ht : t ≤ 0) (hN : worth n t < N + 1) :
    (Binary.ofFloat (.ofModel (.pack u))).floor ≤ N := by
  cases u
  case infinity => cases h
  case notANumber => cases h
  case zero sign => cases sign <;> exact Int.natCast_nonneg N
  case finite sign m e hm =>
    cases sign
    case negative => cases h
    case positive =>
      obtain ⟨he, hle⟩ := h
      have hbits : (Float.ofModel (.pack (.finite .positive m e hm))).toBits.toNat = _ := toNat_pack hm (he.trans ht)
      have hfraction : m % 2 ^ 52 < 2 ^ 52 := Nat.mod_lt _ (by norm_num)
      rw [ofFloat_eq hbits (by split <;> omega) hfraction]
      split
      case isFalse => exact floor_subnormal_le hfraction
      case isTrue hlog =>
        split
        case isTrue => exact floor_subnormal_le hfraction
        case isFalse =>
          have hle52 : 2 ^ 52 ≤ m := by
            have := Nat.log2_self_le hm.ne'
            rwa [Nat.succ_injective hlog] at this
          have hlt53 : m < 2 ^ 53 := hlog ▸ Nat.lt_log2_self
          have hmantissa : 2 ^ 52 + m % 2 ^ 52 = m := by omega
          have hexponent : ((e + 1075).toNat : Int) - 1075 = e := by omega
          rw [hmantissa, hexponent]
          exact floor_le (he.trans ht) (hle.trans_lt hN)

end Reading

section Halves

variable {x : Float} {sign : Sign} {hm : 0 < m}

theorem mantissa_lt (h : x.toModel.unpack = .finite sign m e hm) : m < 2 ^ 53 := by
  rw [Float.Model.unpack, UnpackedFloat.unpack] at h
  split at h
  case isTrue => split at h <;> cases h
  case isFalse =>
    split at h
    case isTrue =>
      split at h
      case isTrue => cases h
      case isFalse =>
        obtain ⟨_, rfl, _⟩ := UnpackedFloat.finite.inj h
        exact (BitVec.isLt _).trans (by norm_num)
    case isFalse =>
      obtain ⟨_, rfl, _⟩ := UnpackedFloat.finite.inj h
      exact BitVec.isLt _

theorem unpack_zero : (Float.ofInt 0).toModel.unpack = .zero .positive :=
  rfl

theorem unpack_fullChannel : (Float.ofInt 255).toModel.unpack = .finite .positive (255 * 2 ^ 45) (-45) (by decide) :=
  rfl

theorem unpack_half : (0.5 : Float).toModel.unpack = .finite .positive (2 ^ 52) (-53) (by decide) :=
  rfl

theorem lt_iff {x y : Float} : x < y ↔ x.toModel.unpack.compare y.toModel.unpack = some .lt := by
  change Float.lt x y = true ↔ _
  rw [Float.lt, decide_eq_true_iff]
  exact beq_iff_eq

-- Between zero and 255 all doubles are positive and finite, and the exponents decide before the mantissas.
theorem exists_of_lt (h0 : Float.ofInt 0 < x) (h : x < Float.ofInt 255) : ∃ m e, ∃ hm : 0 < m,
    x.toModel.unpack = .finite .positive m e hm ∧ worth m e < 255 := by
  rw [lt_iff, unpack_zero] at h0
  rw [lt_iff, unpack_fullChannel] at h
  cases hx : x.toModel.unpack
  case notANumber => simp [hx, UnpackedFloat.compare] at h
  case zero sign => simp [hx, UnpackedFloat.compare] at h0
  case infinity sign => cases sign <;> simp [hx, UnpackedFloat.compare] at h h0
  case finite sign m e hm =>
    cases sign
    case negative => simp [hx, UnpackedFloat.compare] at h0
    case positive =>
      refine ⟨m, e, hm, rfl, ?_⟩
      simp only [hx, UnpackedFloat.compare, Option.some.injEq, Ordering.then_eq_lt, Int.compare_eq_lt,
        Int.compare_eq_eq, Nat.compare_eq_lt] at h
      have h255 : worth (255 * 2 ^ 45) (-45) = 255 := by norm_num [worth]
      rcases h with he | ⟨rfl, hlt⟩
      · have hpow : (2 : Rat) ^ e ≤ 2 ^ (-46 : Int) := zpow_le_zpow_right₀ (by norm_num) (by omega)
        calc worth m e
          _ ≤ worth m (-46) := mul_le_mul_of_nonneg_left hpow (Nat.cast_nonneg _)
          _ < worth (2 ^ 53) (-46) := worth_lt_iff.mpr (mantissa_lt hx)
          _ < 255 := by norm_num [worth]
      · exact h255 ▸ worth_lt_iff.mpr hlt

-- Rounded halves up, a double below 255 becomes 255 at most: the sum with a half is below 255.5, which is a double.
theorem floor_add_half_le (h0 : Float.ofInt 0 < x) (h : x < Float.ofInt 255) :
    (Binary.ofFloat (x + 0.5)).floor ≤ (255 : Nat) := by
  obtain ⟨m, e, hm, hx, hlt⟩ := exists_of_lt h0 h
  have hhalf : worth (2 ^ 52) (-53) = 1 / 2 := by norm_num [worth]
  have hbound : worth 511 (-1) = 255 + 1 / 2 := by norm_num [worth]
  have hsum : worth m e + worth (2 ^ 52) (-53) ≤ worth 511 (-1) := by
    rw [hhalf, hbound]
    linarith
  have hadd : x + 0.5 = .ofModel (.pack (add Format.binary64 x.toModel.unpack (0.5 : Float).toModel.unpack)) := rfl
  have hb : Bound 511 (-1) := ⟨by norm_num, by norm_num⟩
  rw [hadd, hx, unpack_half]
  refine floor_pack_le (hb.add ((min_le_right ..).trans (by norm_num)) hsum) (by norm_num) ?_
  rw [hbound]
  norm_num

end Halves

end LayeredDiagram.Double
