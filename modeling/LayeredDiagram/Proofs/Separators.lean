import LayeredDiagram.Proofs.Quoting
import Mathlib.Algebra.Group.Nat.Even
/-!
Arguments as the parts of a text between its separators. A comma separates if the quotes before it come in pairs. So
texts that are quoted and joined with commas are read as they were, whatever commas and blanks they contain.
-/

namespace LayeredDiagram.Text

variable {quoted : Bool} {quotes start : Nat} {places : List Nat} {c : Char} {s : List Char}

-- The places of the commas that an even number of double quotes comes before, counted from those in front of the text.
def separators (quotes : Nat) (s : List Char) : List Nat :=
  (List.range s.length).filter fun i => s[i]? = some ',' ∧ Even (quotes + (s.take i).count '"')

-- The parts of a text from a place on. They end at places further on and at the end of the text.
def parts (s : List Char) (start : Nat) : List Nat → List (List Char)
  | [] => [s.drop start]
  | i :: places => (s.take i).drop start :: parts s (i + 1) places

-- The trimmed parts of a text between its separators, without the last one if that is blank.
def splitArguments (s : List Char) : List (List Char) :=
  let trimmed := (parts s 0 (separators 0 s)).map trim
  if trimmed.getLast? = some [] then trimmed.dropLast else trimmed

-- A quote counts for the characters behind it.
theorem count_quotes_cons (quotes : Nat) (c : Char) (s : List Char) :
    quotes + (c :: s).count '"' = (if c = '"' then quotes + 1 else quotes) + s.count '"' := by
  rw [List.count_cons]
  by_cases hc : c = '"'
  case pos =>
    simp only [hc, beq_self_eq_true, if_true]
    omega
  case neg => simp [hc]

theorem separators_cons : separators quotes (c :: s) =
    (if c = ',' ∧ Even quotes then [0] else []) ++
      (separators (if c = '"' then quotes + 1 else quotes) s).map (· + 1) := by
  have hrest (i : Nat) : ((c :: s)[i + 1]? = some ',' ∧ Even (quotes + ((c :: s).take (i + 1)).count '"')) ↔
      s[i]? = some ',' ∧ Even ((if c = '"' then quotes + 1 else quotes) + (s.take i).count '"') := by
    rw [List.getElem?_cons_succ, List.take_succ_cons, count_quotes_cons]
  have hfirst : ((c :: s)[0]? = some ',' ∧ Even (quotes + ((c :: s).take 0).count '"')) ↔ c = ',' ∧ Even quotes := by
    simp
  rw [separators, separators, List.length_cons, List.range_succ_eq_map, List.filter_cons, List.filter_map]
  simp only [Function.comp_def, Nat.succ_eq_add_one, hrest, hfirst]
  split <;> simp_all

theorem parts_cons_succ : parts (c :: s) (start + 1) (places.map (· + 1)) = parts s start places := by
  induction places generalizing start
  case nil => rfl
  case cons i places ih => rw [List.map_cons, parts, parts, ih, List.take_succ_cons, List.drop_succ_cons]

theorem parts_cons_zero : parts (c :: s) 0 (places.map (· + 1)) = (parts s 0 places).modifyHead (c :: ·) := by
  cases places
  case nil => rfl
  case cons i places => rw [List.map_cons, parts, parts, parts_cons_succ]; rfl

-- Reading goes on inside quotes if an odd number of quotes has been read. By induction on the text left.
theorem fields_eq_parts (h : quoted = false ↔ Even quotes) : fields quoted s = parts s 0 (separators quotes s) := by
  induction s generalizing quoted quotes
  case nil => rfl
  case cons c s ih =>
    rw [separators_cons]
    by_cases hc : c = ',' ∧ Even quotes
    case pos =>
      obtain ⟨rfl, heven⟩ := hc
      have hquoted := h.mpr heven
      rw [fields, if_pos ⟨rfl, hquoted⟩, if_pos ⟨rfl, heven⟩, if_neg (by decide), ← hquoted, ih h,
        List.singleton_append, parts, parts_cons_succ]
      rfl
    case neg =>
      have hopen : c = ',' → quoted = true := fun hcomma => by simpa [hcomma, ← h] using hc
      have hnext : (if c = '"' then !quoted else quoted) = false ↔ Even (if c = '"' then quotes + 1 else quotes) := by
        split
        case isTrue => rw [Nat.even_add_one, ← h, Bool.not_eq_false', Bool.not_eq_false]
        case isFalse => exact h
      rw [fields_cons hopen, if_neg hc, List.nil_append, parts_cons_zero, ih hnext]

theorem dropLastEmpty_eq (fs : List (List Char)) :
    dropLastEmpty fs = if fs.getLast? = some [] then fs.dropLast else fs := by
  fun_induction dropLastEmpty fs
  case case1 => rfl
  case case2 a ha => simp_all
  case case3 a ha => simp_all
  case case4 a more hmore ih =>
    obtain ⟨b, more, rfl⟩ := List.exists_cons_of_ne_nil hmore
    rw [ih, List.getLast?_cons_cons, List.dropLast_cons_cons]
    split <;> rfl

theorem arguments_join_quote {texts : List (List Char)} (h : ∀ t ∈ texts, '"' ∉ t) :
    arguments (join [','] (texts.map quote)) = texts.map quote := by
  refine arguments_join (List.forall_mem_nil _) (fun a ha => ?_) fun hnil => ?_
  case refine_1 =>
    obtain ⟨t, ht, rfl⟩ := List.mem_map.mp ha
    exact ⟨isField_quote (h t ht), isTrimmed_quote t⟩
  case refine_2 =>
    obtain ⟨t, _, ht⟩ := List.mem_map.mp hnil
    cases ht

-- A text is cut at the commas outside quotes, and texts survive being quoted and joined with commas.
theorem arguments_eq_splitArguments : (∀ s, arguments s = splitArguments s) ∧
    ∀ texts, (∀ t ∈ texts, '"' ∉ t) → (arguments (join [','] (texts.map quote))).map unquote = texts := by
  constructor
  · intro s
    have heven : false = false ↔ Even 0 := by simp
    rw [arguments, fields_eq_parts heven, dropLastEmpty_eq, splitArguments]
  · intro texts h
    rw [arguments_join_quote h, List.map_map]
    exact (List.map_congr_left fun t _ => unquote_quote t).trans (List.map_id texts)

def awkwardTexts : List (List Char) :=
  ["a, b".toList, "".toList, "  c\t".toList, ",".toList]

theorem arguments_eq_splitArguments_awkwardTexts :
    (arguments (join [','] (awkwardTexts.map quote))).map unquote = awkwardTexts :=
  arguments_eq_splitArguments.right awkwardTexts (by decide)

-- Two quotes in the middle of a field, an empty field, and a quote that is never closed.
example : arguments " a\"b,c\"d ,, \"e, ".toList = ["a\"b,c\"d".toList, [], "\"e,".toList] := by
  decide

end LayeredDiagram.Text
