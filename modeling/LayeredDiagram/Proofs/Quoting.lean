import LayeredDiagram.Text.Arguments
import LayeredDiagram.Text.Lines
import LayeredDiagram.Text.Scan
import Mathlib.Data.List.TakeWhile
/-!
Quoted arguments. Between double quotes every character stands for itself, commas and blanks included, so a list of
names and quoted texts is read as it was written. What a reader of a line leaves is the rest of the line, and the lines
of a text are read one by one, with or without blanks around them.
-/

namespace LayeredDiagram.Text

section Blanks

-- The code points of all blanks.
def blanks : List Nat :=
  List.range' 9 5 ++ List.range' 28 5 ++ [0x85, 0xA0, 0x1680, 0x2028, 0x2029, 0x202F, 0x205F, 0x3000] ++
    List.range' 0x2000 11

theorem mem_blanks {c : Char} (h : isBlank c) : c.toNat ∈ blanks := by
  simp only [isBlank, Bool.or_eq_true, Bool.and_eq_true, decide_eq_true_eq, beq_iff_eq] at h
  simp only [blanks, List.mem_append, List.mem_cons, List.mem_range'_1, List.not_mem_nil]
  omega

theorem isWord_blanks : ∀ n ∈ blanks, isWord (Char.ofNat n) = false := by
  simp only [isWord, inClass, ← Array.foldl_toList]
  decide +kernel

theorem isBlank_of_isWord {c : Char} (h : isWord c) : isBlank c = false := by
  rw [Bool.eq_false_iff]
  intro hb
  have hc := isWord_blanks _ (mem_blanks hb)
  rw [Char.ofNat_toNat] at hc
  exact Bool.false_ne_true (hc.symm.trans h)

theorem ne_of_isWord {c d : Char} (h : isWord c) (hd : isWord d = false) : c ≠ d := by
  rintro rfl
  exact Bool.false_ne_true (hd.symm.trans h)

end Blanks

section Trimming

variable {s : List Char}

theorem trimStart_eq_self (h : ∀ c ∈ s.head?, isBlank c = false) : trimStart s = s := by
  cases s
  case nil => rfl
  case cons c s => exact List.dropWhile_cons_of_neg (by simpa using h c rfl)

theorem trimEnd_eq_self (h : ∀ c ∈ s.getLast?, isBlank c = false) : trimEnd s = s := by
  have hr : s.reverse.dropWhile isBlank = s.reverse := trimStart_eq_self (by simpa using h)
  rw [trimEnd, hr, List.reverse_reverse]

theorem mem_of_mem_head?_append {t : List Char} {c : Char} (hs : s ≠ []) (h : c ∈ (s ++ t).head?) : c ∈ s := by
  rw [List.head?_append, Option.or_of_isSome (List.isSome_head?.mpr hs)] at h
  exact List.mem_of_mem_head? h

-- Texts without a blank at either end.
structure IsTrimmed (s : List Char) : Prop where
  head : ∀ c ∈ s.head?, isBlank c = false
  last : ∀ c ∈ s.getLast?, isBlank c = false

instance : DecidablePred IsTrimmed := fun s =>
  decidable_of_iff ((s.head?.all fun c => !isBlank c) ∧ s.getLast?.all fun c => !isBlank c)
    ⟨fun ⟨hh, hl⟩ => ⟨by simpa [Option.all_eq_true] using hh, by simpa [Option.all_eq_true] using hl⟩,
      fun h => by simpa [Option.all_eq_true] using And.intro h.head h.last⟩

theorem IsTrimmed.trim_eq (h : IsTrimmed s) : trim s = s := by
  rw [trim, trimStart_eq_self h.head, trimEnd_eq_self h.last]

theorem IsTrimmed.trim_padded {before after : List Char} (h : IsTrimmed s) (hs : s ≠ [])
    (hb : ∀ c ∈ before, isBlank c) (ha : ∀ c ∈ after, isBlank c) : trim (before ++ s ++ after) = s := by
  have hstart : trimStart (before ++ s ++ after) = s ++ after := by
    rw [trimStart, List.append_assoc, List.dropWhile_append_of_pos hb]
    refine trimStart_eq_self fun c hc => h.head c ?_
    rwa [List.head?_append, Option.or_of_isSome (List.isSome_head?.mpr hs)] at hc
  have hend : (s ++ after).reverse.dropWhile isBlank = s.reverse.dropWhile isBlank := by
    rw [List.reverse_append, List.dropWhile_append_of_pos (by simpa using ha)]
  rw [trim, hstart, trimEnd, hend]
  exact trimEnd_eq_self h.last

theorem mem_dropWhile {p : Char → Bool} {c : Char} (h : c ∈ s) (hc : p c = false) : c ∈ s.dropWhile p := by
  rw [← List.takeWhile_append_dropWhile (p := p) (l := s)] at h
  refine (List.mem_append.mp h).resolve_left fun hmem => ?_
  exact Bool.false_ne_true (hc.symm.trans (List.mem_takeWhile_imp hmem))

theorem mem_trimStart {c : Char} (h : c ∈ s) (hc : isBlank c = false) : c ∈ trimStart s :=
  mem_dropWhile h hc

theorem isTrimmed_of_isWord (h : ∀ c ∈ s, isWord c) : IsTrimmed s where
  head c hc := isBlank_of_isWord (h c (List.mem_of_mem_head? hc))
  last c hc := isBlank_of_isWord (h c (List.mem_of_getLast? hc))

end Trimming

-- A text between double quotes.
def quote (s : List Char) : List Char :=
  '"' :: s ++ ['"']

theorem unquote_quote (s : List Char) : unquote (quote s) = s := by
  simp [unquote, quote]

theorem isTrimmed_quote (s : List Char) : IsTrimmed (quote s) := by
  constructor
  case head =>
    intro c hc
    obtain rfl : '"' = c := by simpa [quote] using hc
    decide
  case last =>
    intro c hc
    have hlast : (quote s).getLast? = some '"' := List.getLast?_concat
    obtain rfl : '"' = c := Option.some.inj (hlast.symm.trans hc)
    decide

theorem takeWhile_of_notMem {c : Char} {s : List Char} (h : c ∉ s) (t : List Char) :
    (s ++ c :: t).takeWhile (· ≠ c) = s ∧ (s ++ c :: t).dropWhile (· ≠ c) = c :: t := by
  have hs : ∀ d ∈ s, decide (d ≠ c) = true := fun d hd => by
    simpa using fun heq : d = c => h (heq ▸ hd)
  constructor
  · rw [List.takeWhile_append_of_pos hs, List.takeWhile_cons_of_neg (by simp), List.append_nil]
  · rw [List.dropWhile_append_of_pos hs, List.dropWhile_cons_of_neg (by simp)]

section Scanning

variable {p : Char → Bool} {s t w keyword : List Char} {c : Char}

-- A run goes on up to the first character outside its class.
theorem run?_append (hs : s ≠ []) (hp : ∀ c ∈ s, p c) (ht : ∀ c ∈ t.head?, p c = false) :
    run? p (s ++ t) = some (s, t) := by
  have htake : (s ++ t).takeWhile p = s ∧ (s ++ t).dropWhile p = t := by
    rw [List.takeWhile_append_of_pos hp, List.dropWhile_append_of_pos hp]
    cases t
    case nil => simp
    case cons d t =>
      have hd : ¬p d := by simpa using ht d rfl
      rw [List.takeWhile_cons_of_neg hd, List.dropWhile_cons_of_neg hd, List.append_nil]
      exact ⟨rfl, rfl⟩
  simp only [run?, htake, List.isEmpty_eq_false_iff.mpr hs, Bool.false_eq_true, if_false]

theorem gap?_cons (ht : ∀ c ∈ t.head?, isBlank c = false) : gap? (' ' :: t) = some t := by
  have hrun : run? isBlank ([' '] ++ t) = some ([' '], t) :=
    run?_append (List.cons_ne_nil _ _) (List.forall_mem_singleton.mpr rfl) ht
  rw [List.singleton_append] at hrun
  rw [gap?, hrun, Option.map_some]

theorem quotation?_quote (h : '"' ∉ s) (t : List Char) : quotation? (quote s ++ t) = some (s, t) := by
  obtain ⟨htake, hdrop⟩ := takeWhile_of_notMem h t
  have hquote : quote s ++ t = '"' :: (s ++ '"' :: t) := by simp [quote]
  simp only [hquote, quotation?, htake, hdrop]

-- No reader loses a character that it does not look for.
theorem mem_of_after? (h : after? keyword s = some t) (hc : c ∈ s) (hk : c ∉ keyword) : c ∈ t := by
  fun_induction after? keyword s
  case case1 => exact Option.some.inj h ▸ hc
  case case2 d keyword s ih =>
    simp only [List.mem_cons, not_or] at hk
    exact ih h ((List.mem_cons.mp hc).resolve_left hk.left) hk.right
  case case3 => cases h
  case case4 => cases h

theorem mem_of_run? (h : run? p s = some (w, t)) (hc : c ∈ s) (hp : p c = false) : c ∈ t := by
  simp only [run?] at h
  split at h
  case isTrue => cases h
  case isFalse =>
    obtain ⟨rfl, rfl⟩ := Prod.mk.inj (Option.some.inj h)
    exact mem_dropWhile hc hp

theorem mem_of_gap? (h : gap? s = some t) (hc : c ∈ s) (hb : isBlank c = false) : c ∈ t := by
  obtain ⟨⟨_, _⟩, hrun, rfl⟩ := Option.map_eq_some_iff.mp h
  exact mem_of_run? hrun hc hb

end Scanning

section Joining

variable {a b separator : List Char} {as : List (List Char)} {c : Char}

theorem mem_join (h : c ∈ join separator as) : c ∈ separator ∨ ∃ a ∈ as, c ∈ a := by
  fun_induction join separator as
  case case1 => cases h
  case case2 a => exact .inr ⟨a, List.mem_singleton_self a, h⟩
  case case3 a more _ ih =>
    rcases List.mem_append.mp h with h | h
    · rcases List.mem_append.mp h with h | h
      · exact .inr ⟨a, List.mem_cons_self, h⟩
      · exact .inl h
    · exact (ih h).imp_right fun ⟨b, hb, hc⟩ => ⟨b, List.mem_cons_of_mem _ hb, hc⟩

theorem subset_join (h : a ∈ as) : a ⊆ join separator as := by
  fun_induction join separator as
  case case1 => cases h
  case case2 b => simp [List.mem_singleton.mp h]
  case case3 b more _ ih =>
    rcases List.mem_cons.mp h with rfl | h
    · simp
    · exact List.subset_append_of_subset_right _ (ih h)

theorem suffix_join_concat (as : List (List Char)) (a : List Char) : a <:+ join separator (as ++ [a]) := by
  induction as
  case nil => exact List.suffix_refl a
  case cons b as ih =>
    cases as
    case nil => exact List.suffix_append _ a
    case cons d as => exact ih.trans (List.suffix_append _ _)

end Joining

section Fields

variable {a s : List Char} {quoted : Bool}

theorem fields_ne_nil (quoted : Bool) (s : List Char) : fields quoted s ≠ [] := by
  cases s
  case nil => simp [fields]
  case cons c s =>
    unfold fields
    split
    · simp
    · split <;> simp

theorem fields_cons {c : Char} (h : c = ',' → quoted = true) (rest : List Char) :
    fields quoted (c :: rest) =
      (fields (if c = '"' then !quoted else quoted) rest).modifyHead (c :: ·) := by
  have hc : ¬(c = ',' ∧ quoted = false) := fun hc => by simp [h hc.left] at hc
  rw [fields, if_neg hc]
  split
  case h_1 hf => rw [hf, List.modifyHead_cons]
  case h_2 hf => exact absurd hf (fields_ne_nil _ _)

-- Arguments that are one field whatever follows.
def IsField (a : List Char) : Prop :=
  ∀ rest, fields false (a ++ rest) = (fields false rest).modifyHead (a ++ ·)

theorem isField_of_plain (h : ∀ c ∈ a, c ≠ ',' ∧ c ≠ '"') : IsField a := by
  intro rest
  induction a
  case nil => simp [show (fun s : List Char => s) = id from rfl]
  case cons c a ih =>
    obtain ⟨hcomma, hquote⟩ := h c List.mem_cons_self
    rw [List.cons_append, fields_cons (absurd · hcomma), if_neg hquote,
      ih fun d hd => h d (List.mem_cons_of_mem _ hd), List.modifyHead_modifyHead]
    rfl

-- Inside quotes commas do not separate.
theorem fields_quoted (h : '"' ∉ s) (rest : List Char) :
    fields true (s ++ rest) = (fields true rest).modifyHead (s ++ ·) := by
  induction s
  case nil => simp [show (fun s : List Char => s) = id from rfl]
  case cons c s ih =>
    simp only [List.mem_cons, not_or] at h
    rw [List.cons_append, fields_cons fun _ => rfl, if_neg (Ne.symm h.left), ih h.right, List.modifyHead_modifyHead]
    rfl

theorem isField_quote (h : '"' ∉ s) : IsField (quote s) := by
  intro rest
  have hopen : fields false (quote s ++ rest) = (fields true (s ++ ('"' :: rest))).modifyHead ('"' :: ·) := by
    simp [quote, fields_cons]
  rw [hopen, fields_quoted h, fields_cons (by simp)]
  simp [quote, List.modifyHead_modifyHead, Function.comp_def]

theorem fields_join {as : List (List Char)} {gap : List Char} (hg : IsField gap) (h : ∀ b ∈ as, IsField b)
    (ha : IsField a) : fields false (join (',' :: gap) (a :: as)) = a :: as.map (gap ++ ·) := by
  induction as generalizing a
  case nil => simpa [join, fields] using ha []
  case cons b as ih =>
    have hb := ih (fun d hd => h d (List.mem_cons_of_mem _ hd)) (h b List.mem_cons_self)
    rw [join, List.append_assoc, ha, List.cons_append, fields, if_pos ⟨rfl, rfl⟩, hg, hb]
    simp
    · simp

end Fields

theorem dropLastEmpty_eq_self {as : List (List Char)} (h : [] ∉ as) : dropLastEmpty as = as := by
  fun_induction dropLastEmpty as
  case case1 => rfl
  case case2 a ha => simp_all
  case case3 a ha => rfl
  case case4 a more hmore ih => rw [ih fun hm => h (List.mem_cons_of_mem _ hm)]

-- What is written with commas between the arguments, and maybe with blanks behind the commas, is read as these arguments.
theorem arguments_join {as : List (List Char)} {gap : List Char} (hg : ∀ c ∈ gap, isBlank c)
    (h : ∀ a ∈ as, IsField a ∧ IsTrimmed a) (hn : [] ∉ as) : arguments (join (',' :: gap) as) = as := by
  cases as
  case nil => rfl
  case cons a as =>
    have hgap : IsField gap := isField_of_plain fun c hc => by
      have := hg c hc
      constructor
      · rintro rfl
        cases this
      · rintro rfl
        cases this
    have hfields :=
      fields_join hgap (fun b hb => (h b (List.mem_cons_of_mem _ hb)).left) (h a List.mem_cons_self).left
    have htrim : (a :: as.map (gap ++ ·)).map trim = a :: as := by
      rw [List.map_cons, (h a List.mem_cons_self).right.trim_eq, List.map_map]
      refine congrArg (a :: ·) ((List.map_congr_left fun b hb => ?_).trans (List.map_id as))
      have hb : b ∈ a :: as := List.mem_cons_of_mem _ hb
      have hpadded : trim (gap ++ b ++ []) = b :=
        (h b hb).right.trim_padded (fun heq => hn (heq ▸ hb)) hg (List.forall_mem_nil _)
      rwa [List.append_nil] at hpadded
    rw [arguments, hfields, htrim, dropLastEmpty_eq_self hn]

section Lines

variable {s t : List Char}

theorem splitOn_ne_nil (c : Char) (s : List Char) : splitOn c s ≠ [] := by
  cases s
  case nil => simp [splitOn]
  case cons d s =>
    rw [splitOn]
    split
    · simp
    · split <;> simp

theorem splitOn_append (c : Char) (s t : List Char) : splitOn c (s ++ c :: t) = splitOn c s ++ splitOn c t := by
  induction s
  case nil => simp [splitOn]
  case cons d s ih =>
    rw [List.cons_append, splitOn, splitOn, ih]
    split
    · rfl
    · cases h : splitOn c s
      case nil => exact absurd h (splitOn_ne_nil c s)
      case cons => rfl

theorem splitOn_of_notMem {c : Char} (h : c ∉ s) : splitOn c s = [s] := by
  induction s
  case nil => rfl
  case cons d s ih =>
    simp only [List.mem_cons, not_or] at h
    rw [splitOn, if_neg (Ne.symm h.left), ih h.right]

-- Trimmed lines that are no comments.
structure IsLine (s : List Char) : Prop extends IsTrimmed s where
  ne_nil : s ≠ []
  noComment : s.head? ≠ some '%'
  noBreak : '\n' ∉ s

instance : DecidablePred IsLine := fun s =>
  decidable_of_iff (IsTrimmed s ∧ s ≠ [] ∧ s.head? ≠ some '%' ∧ '\n' ∉ s)
    ⟨fun ⟨ht, hn, hc, hb⟩ => ⟨ht, hn, hc, hb⟩, fun h => ⟨h.toIsTrimmed, h.ne_nil, h.noComment, h.noBreak⟩⟩

theorem IsLine.meaningful?_eq (h : IsLine s) : meaningful? s = some s := by
  have hc : "%%".toList.isPrefixOf s = false := by
    cases s
    case nil => rfl
    case cons c s => simp [List.isPrefixOf, Ne.symm (by simpa using h.noComment)]
  rw [meaningful?, h.trim_eq, hc, Bool.or_false, List.isEmpty_eq_false_iff.mpr h.ne_nil]
  rfl

theorem meaningfulLines_pair (hs : IsLine s) (ht : IsLine t) :
    meaningfulLines (String.ofList (s ++ '\n' :: t)) = [s, t] := by
  simp [meaningfulLines, splitOn_append, splitOn_of_notMem hs.noBreak, splitOn_of_notMem ht.noBreak,
    hs.meaningful?_eq, ht.meaningful?_eq]

def startsBlank : List Char → Bool
  | c :: _ => isBlank c
  | [] => false

-- A line with its indentation noted, if it carries meaning.
def readLine? (raw : List Char) : Option Line :=
  (meaningful? raw).map fun content => { content, isIndented := startsBlank raw }

-- The lines of a part of a text.
def linesOf (s : List Char) : List Line :=
  (splitOn '\n' s).filterMap readLine?

theorem bodyLines_eq_drop (text : String) : bodyLines text = (linesOf text.toList).drop 1 :=
  rfl

theorem linesOf_append (s t : List Char) : linesOf (s ++ '\n' :: t) = linesOf s ++ linesOf t := by
  rw [linesOf, splitOn_append, List.filterMap_append, linesOf, linesOf]

-- Behind the header all lines count.
theorem bodyLines_append {before : String} (h : linesOf before.toList ≠ []) (after : String) :
    bodyLines (before ++ "\n" ++ after) = bodyLines before ++ linesOf after.toList := by
  have htext : (before ++ "\n" ++ after).toList = before.toList ++ '\n' :: after.toList := by
    simp [String.toList_append]
  rw [bodyLines_eq_drop, bodyLines_eq_drop, htext, linesOf_append,
    List.drop_append_of_le_length (List.length_pos_iff.mpr h)]

-- Blanks around a line do not change what it says.
theorem IsLine.linesOf_padded {before after : List Char} (h : IsLine s)
    (hb : ∀ c ∈ before ++ after, isBlank c ∧ c ≠ '\n') :
    linesOf (before ++ s ++ after) = [{ content := s, isIndented := startsBlank (before ++ s ++ after) }] := by
  have hbreak : '\n' ∉ before ++ s ++ after := by
    have hb' : '\n' ∉ before ++ after := fun hc => (hb _ hc).right rfl
    simp only [List.mem_append, not_or] at hb' ⊢
    exact ⟨⟨hb'.left, h.noBreak⟩, hb'.right⟩
  have htrim : trim (before ++ s ++ after) = s := h.trim_padded h.ne_nil
    (fun c hc => (hb c (List.mem_append_left _ hc)).left) (fun c hc => (hb c (List.mem_append_right _ hc)).left)
  have hread : meaningful? (before ++ s ++ after) = some s := by
    rw [← h.meaningful?_eq, meaningful?, meaningful?, htrim, h.trim_eq]
  simp only [linesOf, splitOn_of_notMem hbreak, readLine?, List.filterMap_cons, hread, Option.map_some,
    List.filterMap_nil]

end Lines

end LayeredDiagram.Text
