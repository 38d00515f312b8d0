import LayeredDiagram.Proofs.Doubles
import LayeredDiagram.Theme.Palette
/-!
Which palettes have colours. The background and the foreground have to be colours in hexadecimal notation. So do the
other colours that a palette has, but a line feed may follow each of these, and it is kept. Colours that a palette lacks
are mixed from the background and the foreground; whatever is mixed is a colour in hexadecimal notation.
-/

namespace LayeredDiagram

namespace Color

variable {s fg bg label : String} {value : Value} {a b c : Char} {x : Quantity} {l digits : List Char}

-- `#` with three, six or eight hexadecimal digits and nothing else.
def IsStrict (s : String) : Prop :=
  ∃ digits, s.toList = '#' :: digits ∧ digits.length ∈ [3, 6, 8] ∧ ∀ c ∈ digits, isHexDigit c

-- A colour in hexadecimal notation with a line feed behind it.
def IsEnded (s : String) : Prop :=
  ∃ color, IsStrict color ∧ s = color ++ "\n"

section Digits

-- The number that a hexadecimal digit stands for.
def nibble (c : Char) : Nat :=
  "0123456789abcdef".toList.idxOf c.toLower

-- Nothing that is read around numbers, between digits or in front of colours is a digit.
theorem digit_spec (h : isHexDigit c) : Text.isPadding c = false ∧ Text.digit? 16 c = some (nibble c) ∧
    nibble c < 16 ∧ c ∉ ['+', '-', '_', '#', '\n'] := by
  have hlt : c.toNat < 128 := by
    simp only [isHexDigit, Char.isDigit, Bool.or_eq_true, Bool.and_eq_true, decide_eq_true_eq, Char.le_def, ge_iff_le,
      UInt32.le_iff_toNat_le] at h
    have hlast : ('9' : Char).val.toNat = 57 ∧ ('f' : Char).val.toNat = 102 ∧ ('F' : Char).val.toNat = 70 :=
      ⟨rfl, rfl, rfl⟩
    rw [Char.toNat]
    omega
  have hall : ∀ n : Fin 128, isHexDigit (Char.ofNat n) → Text.isPadding (Char.ofNat n) = false ∧
      Text.digit? 16 (Char.ofNat n) = some (nibble (Char.ofNat n)) ∧ nibble (Char.ofNat n) < 16 ∧
      Char.ofNat n ∉ ['+', '-', '_', '#', '\n'] := by
    decide +kernel
  have := hall ⟨c.toNat, hlt⟩
  rw [Char.ofNat_toNat] at this
  exact this h

theorem digitChar_spec {d : Nat} (h : d < 16) : isHexDigit d.digitChar ∧ nibble d.digitChar = d := by
  decide +revert

theorem not_mem_digits (h : ∀ c ∈ digits, isHexDigit c) : '#' ∉ digits ∧ '\n' ∉ digits :=
  ⟨fun hc => by simpa using (digit_spec (h _ hc)).right.right.right,
    fun hc => by simpa using (digit_spec (h _ hc)).right.right.right⟩

theorem isEnded_iff : IsEnded s ↔
    ∃ digits, s.toList = '#' :: (digits ++ ['\n']) ∧ digits.length ∈ [3, 6, 8] ∧ ∀ c ∈ digits, isHexDigit c := by
  constructor
  case mp =>
    rintro ⟨color, ⟨digits, hs, h⟩, rfl⟩
    refine ⟨digits, ?_, h⟩
    rw [String.toList_append, hs]
    rfl
  case mpr =>
    rintro ⟨digits, hs, h⟩
    refine ⟨.ofList ('#' :: digits), ⟨digits, String.toList_ofList .., h⟩, ?_⟩
    rw [String.ext_iff, hs, String.toList_append, String.toList_ofList]
    rfl

theorem not_isEnded (h : IsStrict s) : ¬IsEnded s := by
  rw [isEnded_iff]
  rintro ⟨digits, hs, -⟩
  obtain ⟨strict, hstrict, -, hdigits⟩ := h
  obtain rfl : strict = digits ++ ['\n'] := List.tail_eq_of_cons_eq (hstrict.symm.trans hs)
  exact (not_mem_digits hdigits).right (by simp)

-- The number that two hexadecimal digits stand for.
def byte (a b : Char) : Int :=
  nibble a * 16 + nibble b

theorem byte_mem (ha : isHexDigit a) (hb : isHexDigit b) : byte a b ∈ Set.Icc 0 255 := by
  have := (digit_spec ha).right.right.left
  have := (digit_spec hb).right.right.left
  rw [byte, Set.mem_Icc]
  omega

theorem integer?_pair (ha : isHexDigit a) (hb : isHexDigit b) : Text.integer? 16 [a, b] = some (byte a b) := by
  obtain ⟨hpa, hda, -, hna⟩ := digit_spec ha
  obtain ⟨hpb, hdb, -, hnb⟩ := digit_spec hb
  have hunpadded : Text.unpadded [a, b] = [a, b] := by simp [Text.unpadded, hpa, hpb]
  have hunsigned : Text.unsigned? 16 [a, b] = some (nibble a * 16 + nibble b) := by
    simp [Text.unsigned?, Text.digitsFrom?, hda, hdb]
  simp only [List.mem_cons, not_or] at hna
  rw [Text.integer?, hunpadded, Text.signed?]
  · rw [hunsigned]
    rfl
  · rintro rest ⟨⟩
    exact hna.left rfl
  · rintro rest ⟨⟩
    exact hna.right.left rfl

end Digits

section Channels

inductive Channel where
  | red | green | blue | opacity

-- The number of a channel. A missing opacity is full.
def level {β : Type} [OfNat β 255] (c : Channels β) : Channel → β
  | .red => c.red
  | .green => c.green
  | .blue => c.blue
  | .opacity => c.alpha.getD 255

theorem dropWhile_mark (h : '#' ∉ l) : ('#' :: l).dropWhile (· == '#') = l := by
  rcases l with _ | ⟨c, l⟩
  · rfl
  · have hc : (c == '#') = false := by
      rw [beq_eq_false_iff_ne]
      exact fun hc => h (by simp [hc])
    simp [hc]

-- The channels that a colour stands for: each of three digits is doubled, and pairs of digits are numbers.
def denoted? (s : String) : Option (Channels Int) :=
  match s.toList with
  | ['#', r, g, b] => some ⟨byte r r, byte g g, byte b b, none⟩
  | ['#', r, r', g, g', b, b'] => some ⟨byte r r', byte g g', byte b b', none⟩
  | ['#', r, r', g, g', b, b', a, a'] => some ⟨byte r r', byte g g', byte b b', some (byte a a')⟩
  | _ => none

theorem IsStrict.exists_digits (h : IsStrict s) : ∃ digits, s.toList = '#' :: digits ∧ (∀ c ∈ digits, isHexDigit c) ∧
    ((∃ r g b, digits = [r, g, b]) ∨ (∃ r r' g g' b b', digits = [r, r', g, g', b, b']) ∨
      ∃ r r' g g' b b' a a', digits = [r, r', g, g', b, b', a, a']) := by
  obtain ⟨digits, hs, hlength, hdigits⟩ := h
  refine ⟨digits, hs, hdigits, ?_⟩
  rcases digits with _ | ⟨c₁, _ | ⟨c₂, _ | ⟨c₃, _ | ⟨c₄, _ | ⟨c₅, _ | ⟨c₆, _ | ⟨c₇, _ | ⟨c₈, _ | ⟨c₉, l⟩⟩⟩⟩⟩⟩⟩⟩⟩
  all_goals simp at hlength ⊢

theorem exists_channels (h : IsStrict s) :
    ∃ cs, denoted? s = some cs ∧ channels s = .ok cs ∧ ∀ k, level cs k ∈ Set.Icc 0 255 := by
  obtain ⟨digits, hs, hdigits, hshape⟩ := h.exists_digits
  have hmark := dropWhile_mark (not_mem_digits hdigits).left
  have hfull : (255 : Int) ∈ Set.Icc 0 255 := by simp
  rcases hshape with ⟨r, g, b, rfl⟩ | ⟨r, r', g, g', b, b', rfl⟩ | ⟨r, r', g, g', b, b', a, a', rfl⟩
  all_goals simp only [List.forall_mem_cons] at hdigits
  · obtain ⟨hr, hg, hb, -⟩ := hdigits
    refine ⟨⟨byte r r, byte g g, byte b b, none⟩, by simp only [denoted?, hs], ?_, fun k => ?_⟩
    · simp [channels, hs, hmark, pairs, integer?_pair, hr, hg, hb]
    · cases k
      exacts [byte_mem hr hr, byte_mem hg hg, byte_mem hb hb, hfull]
  · obtain ⟨hr, hr', hg, hg', hb, hb', -⟩ := hdigits
    refine ⟨⟨byte r r', byte g g', byte b b', none⟩, by simp only [denoted?, hs], ?_, fun k => ?_⟩
    · simp [channels, hs, hmark, pairs, integer?_pair, hr, hr', hg, hg', hb, hb']
    · cases k
      exacts [byte_mem hr hr', byte_mem hg hg', byte_mem hb hb', hfull]
  · obtain ⟨hr, hr', hg, hg', hb, hb', ha, ha', -⟩ := hdigits
    refine ⟨⟨byte r r', byte g g', byte b b', some (byte a a')⟩, by simp only [denoted?, hs], ?_, fun k => ?_⟩
    · simp [channels, hs, hmark, pairs, integer?_pair, hr, hr', hg, hg', hb, hb', ha, ha']
    · cases k
      exacts [byte_mem hr hr', byte_mem hg hg', byte_mem hb hb', byte_mem ha ha']

-- The line feed is counted among the digits.
theorem channels_of_isEnded (h : IsEnded s) : channels s = .error (.wrongLength s) := by
  obtain ⟨digits, hs, hlength, hdigits⟩ := isEnded_iff.mp h
  have hmark : '#' ∉ digits ++ ['\n'] := by simpa using (not_mem_digits hdigits).left
  simp only [List.mem_cons, List.not_mem_nil, or_false] at hlength
  have hthree : (digits ++ ['\n']).length ≠ 3 := by
    simp only [List.length_append, List.length_singleton]
    omega
  have hlong : (digits ++ ['\n']).length ≠ 6 ∧ (digits ++ ['\n']).length ≠ 8 := by
    simp only [List.length_append, List.length_singleton]
    omega
  simp only [channels, hs, dropWhile_mark hmark, if_neg hthree, if_pos hlong]

end Channels

section Writing

-- Two hexadecimal digits.
def IsPair (l : List Char) : Prop :=
  l.length = 2 ∧ ∀ c ∈ l, isHexDigit c

theorem hexDigits_two {n : Nat} (h : n ≤ 255) : Text.hexDigits 2 n = [(n / 16).digitChar, (n % 16).digitChar] := by
  by_cases hn : n < 16
  case pos =>
    rw [Text.hexDigits, Nat.toDigits_of_lt_base hn, Nat.div_eq_of_lt hn, Nat.mod_eq_of_lt hn]
    rfl
  case neg =>
    rw [Text.hexDigits, Nat.toDigits_of_base_le (by decide) (not_lt.mp hn), Nat.toDigits_of_lt_base (by omega)]
    rfl

theorem isPair_hexDigits {n : Nat} (h : n ≤ 255) : IsPair (Text.hexDigits 2 n) := by
  rw [hexDigits_two h]
  refine ⟨rfl, List.forall_mem_cons.mpr ⟨?_, List.forall_mem_singleton.mpr ?_⟩⟩
  · exact (digitChar_spec (by omega)).left
  · exact (digitChar_spec (by omega)).left

theorem isStrict_ofList {r g b : List Char} (hr : IsPair r) (hg : IsPair g) (hb : IsPair b) (hl : l = [] ∨ IsPair l) :
    IsStrict (.ofList ('#' :: r ++ g ++ b ++ l)) := by
  have hopacity : (l.length = 0 ∨ l.length = 2) ∧ ∀ c ∈ l, isHexDigit c := by
    rcases hl with rfl | hl
    · simp
    · exact ⟨.inr hl.left, hl.right⟩
  refine ⟨r ++ g ++ b ++ l, by simp, ?_, ?_⟩
  · simp only [List.length_append, hr.left, hg.left, hb.left]
    rcases hopacity.left with h | h <;> simp [h]
  · simp only [List.mem_append]
    rintro c (((hc | hc) | hc) | hc)
    · exact hr.right c hc
    · exact hg.right c hc
    · exact hb.right c hc
    · exact hopacity.right c hc

-- Computed with real numbers.
def IsReal (x : Quantity) : Prop :=
  ∀ n, x ≠ .whole n

theorem isReal_onReals (op : Float → Float → Float) (x y : Quantity) : IsReal (.onReals op x y) := by
  intro n
  rw [Quantity.onReals]
  split <;> simp

theorem isReal_divide (x y : Quantity) : IsReal (x / y) := by
  change IsReal (x.divide y)
  unfold Quantity.divide
  split
  · intro n
    dsimp only
    split_ifs <;> simp
  · exact isReal_onReals _ _ _

theorem isReal_lift {exact : Int → Int → Int} {rounded : Float → Float → Float} {y : Quantity}
    (h : IsReal x ∨ IsReal y) : IsReal (.lift exact rounded x y) := by
  unfold Quantity.lift
  split
  · rcases h with h | h
    · exact absurd rfl (h _)
    · exact absurd rfl (h _)
  · exact fun n => by simp
  · exact isReal_onReals _ _ _

-- The limits are whole numbers, and a channel between them is a double.
theorem roundChannel_le (h : IsReal x) : roundChannel x ≤ 255 := by
  have hfull : roundChannel (255 : Quantity) = 255 := by decide +kernel
  have hnone : roundChannel (0 : Quantity) = 0 := by decide +kernel
  cases x
  case whole n => exact absurd rfl (h n)
  case faulty f => exact hfull.le
  case real v =>
    have habove : Quantity.real v < 255 ↔ v < Float.ofInt 255 := decide_eq_true_iff
    have hbelow : 0 < Quantity.real v ↔ Float.ofInt 0 < v := decide_eq_true_iff
    rw [roundChannel, Scalar.smaller]
    split
    case isFalse => exact hfull.le
    case isTrue hv =>
      rw [Scalar.larger]
      split
      case isFalse => exact hnone.trans_le (Nat.zero_le _)
      case isTrue h0 => exact Int.toNat_le.mpr (Double.floor_add_half_le (hbelow.mp h0) (habove.mp hv))

theorem isStrict_write {α : Type} [Scalar α] {c : Channels α} (hr : roundChannel c.red ≤ 255)
    (hg : roundChannel c.green ≤ 255) (hb : roundChannel c.blue ≤ 255)
    (ha : ∀ a, c.alpha = some a → roundChannel a ≤ 255) : IsStrict (write c) := by
  refine isStrict_ofList (isPair_hexDigits hr) (isPair_hexDigits hg) (isPair_hexDigits hb) ?_
  split
  case h_1 a heq =>
    split
    case isTrue => exact .inl rfl
    case isFalse => exact .inr (isPair_hexDigits (ha a heq))
  case h_2 => exact .inl rfl

section Blending

variable {α : Type} [Scalar α] {f b : Channels Int} {t u : α}

-- The channels at a fraction of the way from one colour to another.
def blend (t : α) (b f : Channels Int) : Channels α where
  red := between t b.red f.red
  green := between t b.green f.green
  blue := between t b.blue f.blue
  alpha := match f.alpha, b.alpha with
    | none, none => none
    | fa, ba => some (between t (ba.getD 255) (fa.getD 255))

theorem mix_eq (hf : channels fg = .ok f) (hb : channels bg = .ok b) (percent : α) :
    mix fg bg percent = .ok (write (blend (percent / 100) b f)) := by
  rw [mix, hf, hb]
  rfl

theorem eq_of_alpha_blend (h : (blend t b f).alpha = some u) :
    u = between t (b.alpha.getD 255) (f.alpha.getD 255) := by
  simp only [blend] at h
  split at h
  · cases h
  · exact (Option.some.inj h).symm

end Blending

theorem isReal_between {t : Quantity} (h : IsReal t) (start stop : Int) : IsReal (between t start stop) :=
  isReal_lift (.inr (isReal_lift (.inl h)))

-- Whatever is mixed from two colours is one.
theorem exists_mix (hf : IsStrict fg) (hb : IsStrict bg) (percent : Quantity) :
    ∃ s, mix fg bg percent = .ok s ∧ IsStrict s := by
  obtain ⟨f, -, hf, -⟩ := exists_channels hf
  obtain ⟨b, -, hb, -⟩ := exists_channels hb
  have hle (start stop : Int) : roundChannel (between (percent / 100) start stop) ≤ 255 :=
    roundChannel_le (isReal_between (isReal_divide _ _) start stop)
  refine ⟨_, mix_eq hf hb percent, isStrict_write (hle _ _) (hle _ _) (hle _ _) fun a ha => ?_⟩
  rw [eq_of_alpha_blend ha]
  exact hle _ _

theorem mix_of_isEnded (h : IsEnded fg ∨ IsEnded bg) (percent : Quantity) : ∃ e, mix fg bg percent = .error e := by
  rw [mix]
  rcases h with hf | hb
  · rw [channels_of_isEnded hf]
    exact ⟨_, rfl⟩
  · cases hf : channels fg
    case error e => exact ⟨e, rfl⟩
    case ok f =>
      rw [channels_of_isEnded hb]
      exact ⟨_, rfl⟩

end Writing

section Validation

theorem isHex_iff : isHex s.toList ↔ IsStrict s ∨ IsEnded s := by
  constructor
  case mp =>
    intro h
    unfold isHex at h
    split at h
    case h_2 => cases h
    case h_1 rest hs =>
      simp only [Bool.and_eq_true, List.contains_iff_mem, List.all_eq_true] at h
      split at h
      case isFalse => exact .inl ⟨rest, hs, h.left, h.right⟩
      case isTrue hlast =>
        rw [← List.dropLast_append_getLast? _ hlast] at hs
        exact .inr (isEnded_iff.mpr ⟨rest.dropLast, hs, h.left, h.right⟩)
  case mpr =>
    rw [isEnded_iff]
    rintro (⟨digits, hs, hlength, hdigits⟩ | ⟨digits, hs, hlength, hdigits⟩)
    · have hlast : digits.getLast? ≠ some '\n' := fun h => (not_mem_digits hdigits).right (List.mem_of_getLast? h)
      simp only [hs, isHex, if_neg hlast, Bool.and_eq_true, List.contains_iff_mem, List.all_eq_true]
      exact ⟨hlength, hdigits⟩
    · simp only [hs, isHex, List.getLast?_concat, if_true, List.dropLast_concat, Bool.and_eq_true,
        List.contains_iff_mem, List.all_eq_true]
      exact ⟨hlength, hdigits⟩

theorem validate_eq_ok_iff : validate label value = .ok s ↔ value = .text s ∧ (IsStrict s ∨ IsEnded s) := by
  cases value
  case text t =>
    rw [validate, Value.text.injEq]
    split
    case isTrue h =>
      rw [Except.ok.injEq]
      exact ⟨fun hts => ⟨hts, hts ▸ isHex_iff.mp h⟩, And.left⟩
    case isFalse h =>
      refine ⟨nofun, ?_⟩
      rintro ⟨rfl, hs⟩
      exact absurd (isHex_iff.mpr hs) h
  all_goals exact ⟨nofun, nofun⟩

end Validation

end Color

theorem bind_eq_ok_iff {ε β γ : Type} {x : Except ε β} {f : β → Except ε γ} {r : γ} :
    x >>= f = .ok r ↔ ∃ b, x = .ok b ∧ f b = .ok r := by
  cases x
  case error e => exact ⟨nofun, nofun⟩
  case ok b => exact ⟨fun h => ⟨b, rfl, h⟩, fun ⟨_, hb, h⟩ => Except.ok.inj hb ▸ h⟩

namespace DrawingColors

-- The colours of parts that a palette may lack.
def parts (c : DrawingColors) : List String :=
  [c.textSec, c.textMuted, c.textFaint, c.line, c.arrow, c.nodeFill, c.nodeStroke, c.groupHeader, c.innerStroke]

def all (c : DrawingColors) : List String :=
  c.bg :: c.text :: c.groupFill :: c.parts

end DrawingColors

namespace Palette

open Color

-- The colours that a palette may lack.
def optional (p : Palette) : List Value :=
  [p.line, p.accent, p.muted, p.surface, p.border]

-- If a value says something, it is a colour, maybe with a line feed behind it.
def IsAccepted (value : Value) : Prop :=
  value.isPresent → ∃ s, value = .text s ∧ (IsStrict s ∨ IsEnded s)

structure IsHex (p : Palette) : Prop where
  bg : ∃ s, p.bg = .text s ∧ IsStrict s
  fg : ∃ s, p.fg = .text s ∧ IsStrict s
  optional : ∀ value ∈ p.optional, IsAccepted value

-- A part of drawings with the colour that a palette has for it, and what it is mixed with otherwise.
structure Part where
  label : String
  value : Value
  percent : Nat

def Part.color (fg bg : String) (part : Part) : Except ColorError String :=
  override fg bg part.label part.value part.percent

def parts (p : Palette) : List Part :=
  [⟨"muted", p.muted, 60⟩, ⟨"muted", p.muted, 40⟩, ⟨"", .null, 25⟩, ⟨"line", p.line, 30⟩, ⟨"accent", p.accent, 50⟩,
    ⟨"surface", p.surface, 3⟩, ⟨"border", p.border, 20⟩, ⟨"", .null, 5⟩, ⟨"", .null, 12⟩]

variable {p : Palette} {c : DrawingColors} {fg bg s ended : String} {value : Value} {part : Part}

theorem mem_values_parts : value ∈ p.parts.map Part.value ↔ value = .null ∨ value ∈ p.optional := by
  simp only [parts, optional, List.map_cons, List.map_nil, List.mem_cons, List.not_mem_nil, or_false]
  tauto

section Parts

variable (hf : IsStrict fg) (hb : IsStrict bg)
include hf hb

theorem Part.exists_color_iff : (∃ s, part.color fg bg = .ok s) ↔ IsAccepted part.value := by
  rw [Part.color, override]
  split
  case isTrue hpresent => simp only [validate_eq_ok_iff, IsAccepted, hpresent, true_imp_iff]
  case isFalse hpresent =>
    obtain ⟨s, hs, -⟩ := exists_mix hf hb (part.percent : Quantity)
    exact ⟨fun _ h => absurd h hpresent, fun _ => ⟨s, hs⟩⟩

theorem Part.color_spec (h : part.color fg bg = .ok s) :
    (IsStrict s ∨ IsEnded s) ∧ ∀ ended, IsEnded ended → (ended = s ↔ .text ended = part.value) := by
  rw [Part.color, override] at h
  split at h
  case isTrue hpresent =>
    obtain ⟨hvalue, hs⟩ := validate_eq_ok_iff.mp h
    exact ⟨hs, fun ended _ => by rw [hvalue, Value.text.injEq]⟩
  case isFalse habsent =>
    obtain ⟨mixed, hmixed, hstrict⟩ := exists_mix hf hb (part.percent : Quantity)
    obtain rfl : mixed = s := Except.ok.inj (hmixed.symm.trans h)
    refine ⟨.inl hstrict, fun ended hended => ⟨?_, fun hvalue => ?_⟩⟩
    · rintro rfl
      exact absurd hended (not_isEnded hstrict)
    · obtain ⟨digits, hdigits, -⟩ := isEnded_iff.mp hended
      have hne : ended ≠ "" := fun heq => by simp [heq] at hdigits
      exact absurd (hvalue ▸ decide_eq_true hne) habsent

-- By induction on the parts.
theorem parts_spec {parts : List Part} {colors : List String}
    (h : List.Forall₂ (fun part s => part.color fg bg = .ok s) parts colors) :
    (∀ s ∈ colors, IsStrict s ∨ IsEnded s) ∧
      ∀ ended, IsEnded ended → (ended ∈ colors ↔ .text ended ∈ parts.map Part.value) := by
  induction h
  case nil => simp
  case cons part s parts colors hcolor _ hi =>
    obtain ⟨hs, hended⟩ := Part.color_spec hf hb hcolor
    refine ⟨List.forall_mem_cons.mpr ⟨hs, hi.left⟩, fun ended h => ?_⟩
    rw [List.mem_cons, List.map_cons, List.mem_cons, hended ended h, hi.right ended h]

end Parts

theorem resolve_eq_ok_iff : p.resolve = .ok c ↔
    validate "bg" p.bg = .ok c.bg ∧ validate "fg" p.fg = .ok c.text ∧ c.groupFill = c.bg ∧
      List.Forall₂ (fun part s => part.color c.text c.bg = .ok s) p.parts c.parts := by
  simp only [resolve, bind_eq_ok_iff, parts, DrawingColors.parts, List.forall₂_cons, Part.color]
  constructor
  case mp =>
    rintro ⟨bg, hbg, fg, hfg, textSec, h1, textMuted, h2, textFaint, h3, line, h4, arrow, h5, nodeFill, h6, nodeStroke,
      h7, groupHeader, h8, innerStroke, h9, ⟨⟩⟩
    exact ⟨hbg, hfg, rfl, h1, h2, h3, h4, h5, h6, h7, h8, h9, .nil⟩
  case mpr =>
    rintro ⟨hbg, hfg, hfill, h1, h2, h3, h4, h5, h6, h7, h8, h9, -⟩
    refine ⟨_, hbg, _, hfg, _, h1, _, h2, _, h3, _, h4, _, h5, _, h6, _, h7, _, h8, _, h9, ?_⟩
    exact congrArg (fun fill => Except.ok { c with groupFill := fill }) hfill.symm

theorem exists_color_of_resolve (h : p.resolve = .ok c) (hpart : part ∈ p.parts) :
    ∃ s, part.color c.text c.bg = .ok s := by
  obtain ⟨-, -, -, hparts⟩ := resolve_eq_ok_iff.mp h
  have hexists : List.Forall₂ (fun part s => (∃ s, part.color c.text c.bg = .ok s) ∧ part.color c.text c.bg = .ok s)
      p.parts c.parts := hparts.imp fun _ s hs => ⟨⟨s, hs⟩, hs⟩
  exact ((List.forall₂_and_left _ _).mp hexists).left part hpart

-- Faint texts are always mixed, so that no line feed may follow the background or the foreground.
theorem strict_of_resolve (h : p.resolve = .ok c) :
    p.bg = .text c.bg ∧ IsStrict c.bg ∧ p.fg = .text c.text ∧ IsStrict c.text := by
  obtain ⟨hbg, hfg, -⟩ := resolve_eq_ok_iff.mp h
  obtain ⟨hbg, hb⟩ := validate_eq_ok_iff.mp hbg
  obtain ⟨hfg, hf⟩ := validate_eq_ok_iff.mp hfg
  have hended : ¬(IsEnded c.text ∨ IsEnded c.bg) := fun hended => by
    have hfaint : ⟨"", .null, 25⟩ ∈ p.parts := by simp [parts]
    obtain ⟨s, hs⟩ := exists_color_of_resolve h hfaint
    obtain ⟨e, he⟩ := mix_of_isEnded hended ((25 : Nat) : Quantity)
    exact absurd (he.symm.trans hs) nofun
  rw [not_or] at hended
  exact ⟨hbg, hb.resolve_right hended.right, hfg, hf.resolve_right hended.left⟩

theorem exists_resolve_iff : (∃ c, p.resolve = .ok c) ↔ p.IsHex := by
  constructor
  case mp =>
    rintro ⟨c, h⟩
    obtain ⟨hbg, hb, hfg, hf⟩ := strict_of_resolve h
    refine ⟨⟨_, hbg, hb⟩, ⟨_, hfg, hf⟩, fun value hvalue => ?_⟩
    obtain ⟨part, hpart, rfl⟩ := List.mem_map.mp (mem_values_parts.mpr (.inr hvalue))
    exact (Part.exists_color_iff hf hb).mp (exists_color_of_resolve h hpart)
  case mpr =>
    rintro ⟨⟨bg, hbg, hb⟩, ⟨fg, hfg, hf⟩, hoptional⟩
    have hcolors : ∀ part ∈ p.parts, ∃ s, part.color fg bg = .ok s := fun part hpart => by
      refine (Part.exists_color_iff hf hb).mpr ?_
      rcases mem_values_parts.mp (List.mem_map_of_mem hpart) with h | h
      · rw [h]
        exact nofun
      · exact hoptional _ h
    choose! color hcolor using hcolors
    have hparts : List.Forall₂ (fun part s => part.color fg bg = .ok s) p.parts (p.parts.map color) :=
      List.forall₂_map_right_iff.mpr (List.forall₂_same.mpr hcolor)
    refine ⟨{
      bg, text := fg, groupFill := bg
      textSec := color ⟨"muted", p.muted, 60⟩
      textMuted := color ⟨"muted", p.muted, 40⟩
      textFaint := color ⟨"", .null, 25⟩
      line := color ⟨"line", p.line, 30⟩
      arrow := color ⟨"accent", p.accent, 50⟩
      nodeFill := color ⟨"surface", p.surface, 3⟩
      nodeStroke := color ⟨"border", p.border, 20⟩
      groupHeader := color ⟨"", .null, 5⟩
      innerStroke := color ⟨"", .null, 12⟩ }, ?_⟩
    exact resolve_eq_ok_iff.mpr
      ⟨validate_eq_ok_iff.mpr ⟨hbg, .inl hb⟩, validate_eq_ok_iff.mpr ⟨hfg, .inl hf⟩, rfl, hparts⟩

-- A palette has no colours exactly if its background or its foreground is no colour in hexadecimal notation, or another
-- of its colours is none even if a line feed behind it is ignored. Colours of a drawing that have a line feed behind
-- them are those that the palette has so.
theorem resolve_colors (p : Palette) : ((∃ e, p.resolve = .error e) ↔ ¬p.IsHex) ∧
    ∀ c, p.resolve = .ok c → (∀ s ∈ c.all, IsStrict s ∨ IsEnded s) ∧
      ∀ s, IsEnded s → (s ∈ c.all ↔ .text s ∈ p.optional) := by
  refine ⟨?_, fun c h => ?_⟩
  · rw [← exists_resolve_iff]
    cases p.resolve <;> simp
  · obtain ⟨-, hb, -, hf⟩ := strict_of_resolve h
    obtain ⟨-, -, hfill, hparts⟩ := resolve_eq_ok_iff.mp h
    obtain ⟨hcolors, hended⟩ := parts_spec hf hb hparts
    refine ⟨?_, fun s hs => ?_⟩
    · simp only [DrawingColors.all, List.forall_mem_cons, hfill]
      exact ⟨.inl hb, .inl hf, .inl hb, hcolors⟩
    · have hbg : s ≠ c.bg := fun heq => not_isEnded hb (heq ▸ hs)
      have hfg : s ≠ c.text := fun heq => not_isEnded hf (heq ▸ hs)
      simp [DrawingColors.all, hfill, hbg, hfg, hended s hs, mem_values_parts]

-- The other colours of this palette are mixed.
def lineFeed : Palette :=
  { line := .text "#abc\n" }

theorem isEnded_lineFeed : IsEnded "#abc\n" :=
  ⟨"#abc", ⟨"abc".toList, rfl, by decide, List.all_eq_true.mp rfl⟩, rfl⟩

theorem isHex_lineFeed : lineFeed.IsHex where
  bg := ⟨"#FFFFFF", rfl, "FFFFFF".toList, rfl, by decide, List.all_eq_true.mp rfl⟩
  fg := ⟨"#27272A", rfl, "27272A".toList, rfl, by decide, List.all_eq_true.mp rfl⟩
  optional value h hpresent := by
    simp only [optional, lineFeed, List.mem_cons, List.not_mem_nil, or_false] at h
    rcases h with rfl | rfl | rfl | rfl | rfl
    · exact ⟨_, rfl, .inr isEnded_lineFeed⟩
    all_goals cases hpresent

theorem resolve_colors_lineFeed : ∃ c, lineFeed.resolve = .ok c ∧ (∀ s ∈ c.all, IsStrict s ∨ IsEnded s) ∧
    "#abc\n" ∈ c.all := by
  obtain ⟨c, h⟩ := exists_resolve_iff.mpr isHex_lineFeed
  obtain ⟨hcolors, hended⟩ := (resolve_colors lineFeed).right c h
  exact ⟨c, h, hcolors, (hended _ isEnded_lineFeed).mpr (by simp [optional, lineFeed])⟩

-- A palette has colours although one that it was given is not in hexadecimal notation, and this one is among them.
theorem resolve_keeps_lineFeed : ∃ c, lineFeed.resolve = .ok c ∧ "#abc\n" ∈ c.all ∧ ¬IsStrict "#abc\n" := by
  obtain ⟨c, h⟩ := exists_resolve_iff.mpr isHex_lineFeed
  obtain ⟨-, hb, -, hf⟩ := strict_of_resolve h
  obtain ⟨-, -, -, hparts⟩ := resolve_eq_ok_iff.mp h
  have hmem : "#abc\n" ∈ c.parts :=
    ((parts_spec hf hb hparts).right _ isEnded_lineFeed).mpr (by simp [parts, lineFeed])
  exact ⟨c, h, by simp [DrawingColors.all, hmem], fun hs => not_isEnded hs isEnded_lineFeed⟩

end Palette

end LayeredDiagram
