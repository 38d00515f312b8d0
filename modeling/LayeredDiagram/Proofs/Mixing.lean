import LayeredDiagram.Proofs.Decimals
import LayeredDiagram.Proofs.HexColors
/-!
Mixed colours over exact arithmetic. What is written of the channels is read back as the rounded channels: an opacity
that rounds to full opacity is not written, and counts as full where it is missing. While the percentage grows, each
channel moves from its number in the background to its number in the foreground and never turns back.
-/

namespace LayeredDiagram.Color

variable {fg bg : String} {x y : Rat} {n start stop : Int}

section Rounding

theorem roundChannel_eq (x : Rat) : roundChannel x = ⌊max 0 (min 255 x) + 0.5⌋.toNat := by
  rw [roundChannel, Scalar.larger_eq_max, Scalar.smaller_eq_min]
  rfl

theorem roundChannel_mono : Monotone (roundChannel : Rat → Nat) := by
  intro x y h
  rw [roundChannel_eq, roundChannel_eq]
  have hclamped : max 0 (min 255 x) ≤ max 0 (min 255 y) := max_le_max le_rfl (min_le_min le_rfl h)
  exact Int.toNat_le_toNat (Int.floor_le_floor (add_le_add_left hclamped _))

theorem roundChannel_intCast (h : n ∈ Set.Icc 0 255) : (roundChannel (n : Rat) : Int) = n := by
  have h0 : (0 : Rat) ≤ n := by exact_mod_cast h.left
  have h255 : (n : Rat) ≤ 255 := by exact_mod_cast h.right
  have hfloor : ⌊(n : Rat) + 0.5⌋ = n := by
    rw [Int.floor_intCast_add]
    norm_num
  rw [roundChannel_eq, min_eq_right h255, max_eq_right h0, hfloor, Int.toNat_of_nonneg h.left]

-- Numbers beyond the limits are cut off.
theorem roundChannel_le_full (x : Rat) : roundChannel x ≤ 255 := by
  have hclamped : max 0 (min 255 x) ≤ 255 := max_le (by norm_num) (min_le_left 255 x)
  have hfloor : ⌊max 0 (min 255 x) + 0.5⌋ ≤ 255 := by
    rw [Int.floor_le_iff]
    push_cast
    linarith
  rw [roundChannel_eq]
  exact Int.toNat_le.mpr hfloor

end Rounding

section Writing

theorem byte_digitChar {n : Nat} (h : n ≤ 255) : byte (n / 16).digitChar (n % 16).digitChar = n := by
  rw [byte, (digitChar_spec (by omega)).right, (digitChar_spec (by omega)).right]
  omega

theorem isStrict_write_exact (c : Channels Rat) : IsStrict (write c) :=
  isStrict_write (roundChannel_le_full _) (roundChannel_le_full _) (roundChannel_le_full _) fun _ _ =>
    roundChannel_le_full _

-- The channels that are written: rounded, and without an opacity that rounds to a full one.
def rounded (c : Channels Rat) : Channels Int where
  red := roundChannel c.red
  green := roundChannel c.green
  blue := roundChannel c.blue
  alpha := c.alpha.bind fun a => if roundChannel a = 255 then none else some ↑(roundChannel a)

theorem denoted?_write (c : Channels Rat) : denoted? (write c) = some (rounded c) := by
  have hshown (x : Rat) : Text.hexDigits 2 (roundChannel x) =
      [(roundChannel x / 16).digitChar, (roundChannel x % 16).digitChar] := hexDigits_two (roundChannel_le_full x)
  have hread (x : Rat) : byte (roundChannel x / 16).digitChar (roundChannel x % 16).digitChar = roundChannel x :=
    byte_digitChar (roundChannel_le_full x)
  obtain ⟨red, green, blue, alpha⟩ := c
  cases alpha
  case none => simp [denoted?, write, rounded, hshown, hread]
  case some a =>
    by_cases hfull : roundChannel a = 255
    case pos => simp [denoted?, write, rounded, hshown, hread, hfull]
    case neg => simp [denoted?, write, rounded, hshown, hread, hfull]

theorem level_rounded (c : Channels Rat) (k : Channel) : level (rounded c) k = roundChannel (level c k) := by
  cases k
  case opacity =>
    have hfull : (roundChannel (255 : Rat) : Int) = 255 := roundChannel_intCast (by simp)
    obtain ⟨red, green, blue, alpha⟩ := c
    cases alpha
    case none => exact hfull.symm
    case some a =>
      simp only [level, rounded, Option.bind_some, Option.getD_some]
      split <;> simp_all
  all_goals rfl

end Writing

section Mixing

-- A number that leads from one to another and never turns back while a percentage grows.
structure Leads (number : Rat → Int) (start stop : Int) : Prop where
  zero : number 0 = start
  hundred : number 100 = stop
  amid : ∀ p ∈ Set.Icc 0 100, number p ∈ Set.uIcc start stop
  rises : start ≤ stop → Monotone number
  falls : stop ≤ start → Antitone number

theorem Leads.of_order {number : Rat → Int} (hzero : number 0 = start) (hhundred : number 100 = stop)
    (hrises : start ≤ stop → Monotone number) (hfalls : stop ≤ start → Antitone number) :
    Leads number start stop := by
  refine ⟨hzero, hhundred, fun p ⟨hp0, hp100⟩ => ?_, hrises, hfalls⟩
  rcases le_total start stop with h | h
  · exact Set.mem_uIcc.mpr (.inl ⟨hzero ▸ hrises h hp0, hhundred ▸ hrises h hp100⟩)
  · exact Set.mem_uIcc.mpr (.inr ⟨hhundred ▸ hfalls h hp100, hzero ▸ hfalls h hp0⟩)

theorem between_mono (h : start ≤ stop) (hxy : x ≤ y) : between (x / 100) start stop ≤ between (y / 100) start stop := by
  have hdistance : (0 : Rat) ≤ (stop - start : Int) := by exact_mod_cast Int.sub_nonneg_of_le h
  have := mul_le_mul_of_nonneg_right (div_le_div_of_nonneg_right hxy (by norm_num : (0 : Rat) ≤ 100)) hdistance
  rw [between, between]
  linarith

theorem between_anti (h : stop ≤ start) (hxy : x ≤ y) : between (y / 100) start stop ≤ between (x / 100) start stop := by
  have hdistance : ((stop - start : Int) : Rat) ≤ 0 := by exact_mod_cast Int.sub_nonpos_of_le h
  have := mul_le_mul_of_nonpos_right (div_le_div_of_nonneg_right hxy (by norm_num : (0 : Rat) ≤ 100)) hdistance
  rw [between, between]
  linarith

-- Rounding leaves whole numbers as they are and changes no order.
theorem leads_roundChannel (hstart : start ∈ Set.Icc 0 255) (hstop : stop ∈ Set.Icc 0 255) :
    Leads (fun p => (roundChannel (between (p / 100) start stop) : Int)) start stop := by
  refine .of_order ?zero ?hundred (fun h p q hpq => ?rises) (fun h p q hpq => ?falls)
  case zero => rw [between, zero_div, zero_mul, add_zero, roundChannel_intCast hstart]
  case hundred =>
    rw [between, div_self (by norm_num), one_mul, Int.cast_sub, add_sub_cancel, roundChannel_intCast hstop]
  case rises => exact Int.ofNat_le.mpr (roundChannel_mono (between_mono h hpq))
  case falls => exact Int.ofNat_le.mpr (roundChannel_mono (between_anti h hpq))

-- A missing opacity is mixed as a full one.
theorem level_blend (t : Rat) (b f : Channels Int) (k : Channel) :
    level (blend t b f) k = between t (level b k) (level f k) := by
  cases k
  case opacity =>
    obtain ⟨r, g, blue, ba⟩ := b
    obtain ⟨r', g', blue', fa⟩ := f
    cases ba <;> cases fa <;> simp [level, blend, between]
  all_goals rfl

-- Every mixture of two colours is a colour whose channels lead from those of the background to those of the foreground.
theorem mix_leads (hf : IsStrict fg) (hb : IsStrict bg) : ∃ (f b : Channels Int) (mixed : Rat → Channels Int),
    denoted? fg = some f ∧ denoted? bg = some b ∧
      (∀ p, ∃ s, mix fg bg p = .ok s ∧ IsStrict s ∧ denoted? s = some (mixed p)) ∧
      ∀ k, Leads (fun p => level (mixed p) k) (level b k) (level f k) := by
  obtain ⟨f, hfg, hf, hfull⟩ := exists_channels hf
  obtain ⟨b, hbg, hb, hbytes⟩ := exists_channels hb
  refine ⟨f, b, fun p => rounded (blend (p / 100) b f), hfg, hbg,
    fun p => ⟨_, mix_eq hf hb p, isStrict_write_exact _, denoted?_write _⟩, fun k => ?_⟩
  simp only [level_rounded, level_blend]
  exact leads_roundChannel (hbytes k) (hfull k)

theorem mix_leads_translucent : ∃ (f b : Channels Int) (mixed : Rat → Channels Int),
    denoted? "#00000080" = some f ∧ denoted? "#fff" = some b ∧
      (∀ p, ∃ s, mix "#00000080" "#fff" p = .ok s ∧ IsStrict s ∧ denoted? s = some (mixed p)) ∧
      ∀ k, Leads (fun p => level (mixed p) k) (level b k) (level f k) :=
  mix_leads ⟨"00000080".toList, rfl, by decide, List.all_eq_true.mp rfl⟩
    ⟨"fff".toList, rfl, by decide, List.all_eq_true.mp rfl⟩

example : mix "#000000" "#ffffff" (50 : Rat) = .ok "#808080" := by
  cbv

end Mixing

end LayeredDiagram.Color
