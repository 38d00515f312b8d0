import LayeredDiagram.ClassDiagram.Member
import LayeredDiagram.Proofs.Quoting
/-!
Visibility marks of members. A mark in front of a member changes its visibility and nothing else. The tilde is the
exception: generics are written between tildes as well and are replaced before the mark is looked at, so that a tilde
in front of a text with another tilde opens a generic.
-/

namespace LayeredDiagram.Text

section Trimming

variable {s t : List Char}

theorem trimEnd_cons {c : Char} (h : isBlank c = false) (s : List Char) : trimEnd (c :: s) = c :: trimEnd s := by
  have hc : [c].dropWhile isBlank = [c] := List.dropWhile_cons_of_neg (by simp [h])
  simp only [trimEnd, List.reverse_cons, List.dropWhile_append, hc]
  split
  case isTrue hs => simp [List.isEmpty_iff.mp hs]
  case isFalse => simp

theorem trim_cons {c : Char} (h : isBlank c = false) (s : List Char) : trim (c :: s) = c :: trimEnd s := by
  have hc : trimStart (c :: s) = c :: s := trimStart_eq_self (by simpa using h)
  rw [trim, hc, trimEnd_cons h]

theorem getLast?_trimEnd (s : List Char) : ∀ c ∈ (trimEnd s).getLast?, isBlank c = false := by
  intro c hc
  rw [trimEnd, List.getLast?_reverse] at hc
  simpa [Option.all, show (s.reverse.dropWhile isBlank).head? = some c from hc] using
    List.head?_dropWhile_not isBlank s.reverse

theorem mem_trimEnd {c : Char} (h : isBlank c = false) : c ∈ trimEnd s ↔ c ∈ s := by
  constructor
  case mp => exact fun hmem => List.mem_reverse.mp ((List.dropWhile_sublist _).mem (List.mem_reverse.mp hmem))
  case mpr => exact fun hmem => List.mem_reverse.mpr (mem_trimStart (List.mem_reverse.mpr hmem) h)

-- Whether a text is trimmed is a matter of where its blanks are.
theorem IsTrimmed.congr (h : IsTrimmed s) (heq : t.map isBlank = s.map isBlank) : IsTrimmed t := by
  constructor
  case head =>
    intro c hc
    have hs : s.head?.map isBlank = some (isBlank c) := by
      rw [← List.head?_map, ← heq, List.head?_map, hc, Option.map_some]
    obtain ⟨d, hd, hdc⟩ := Option.map_eq_some_iff.mp hs
    exact hdc ▸ h.head d hd
  case last =>
    intro c hc
    have hs : s.getLast?.map isBlank = some (isBlank c) := by
      rw [← List.getLast?_map, ← heq, List.getLast?_map, hc, Option.map_some]
    obtain ⟨d, hd, hdc⟩ := Option.map_eq_some_iff.mp hs
    exact hdc ▸ h.last d hd

end Trimming

end LayeredDiagram.Text

namespace LayeredDiagram.ClassDiagram

open LayeredDiagram.Text

section Generics

theorem angleBrackets_cons_of_ne {c : Char} (h : c ≠ '~') (s : List Char) :
    angleBrackets (c :: s) = c :: angleBrackets s := by
  rw [angleBrackets, if_neg h]

theorem angleBrackets_of_notMem {s : List Char} (h : '~' ∉ s) : angleBrackets s = s := by
  induction s
  case nil => rfl
  case cons c s ih =>
    obtain ⟨hc, hs⟩ := not_or.mp (mt List.mem_cons.mpr h)
    rw [angleBrackets_cons_of_ne (Ne.symm hc), ih hs]

-- A tilde without another one after it is not replaced.
theorem angleBrackets_cons_of_notMem {s : List Char} (c : Char) (h : '~' ∉ s) : angleBrackets (c :: s) = c :: s := by
  have hs : ¬s.contains '~' = true := by simpa using h
  rw [angleBrackets, if_neg hs, angleBrackets_of_notMem h, ite_self]

-- Tildes and angle brackets are not blank, so a replacement leaves the blanks where they are.
theorem map_isBlank_angleBrackets (s : List Char) :
    (angleBrackets s).map isBlank = s.map isBlank ∧ (angleBrackets.closing s).map isBlank = s.map isBlank := by
  induction s
  case nil => exact ⟨rfl, rfl⟩
  case cons c s ih =>
    obtain ⟨hopen, hclosing⟩ := ih
    constructor
    case left =>
      unfold angleBrackets
      split
      case isTrue hc =>
        split
        case isTrue => rw [List.map_cons, List.map_cons, hclosing, hc]; rfl
        case isFalse => rfl
      case isFalse => rw [List.map_cons, List.map_cons, hopen]
    case right =>
      unfold angleBrackets.closing
      split
      case isTrue hc => rw [List.map_cons, List.map_cons, hopen, hc]; rfl
      case isFalse => rw [List.map_cons, List.map_cons, hclosing]

theorem isTrimmed_angleBrackets {s : List Char} (h : IsTrimmed s) : IsTrimmed (angleBrackets s) :=
  h.congr (map_isBlank_angleBrackets s).left

end Generics

namespace Member

variable {mark c : Char} {s rest : List Char}

-- What is left of a member once its visibility is known.
def ofBody (visibility : String) (s : List Char) : Member :=
  let (k, s) := trailing s
  if s.contains '(' && s.contains ')' then method visibility k s else field visibility k s

theorem ofText_eq (text : List Char) :
    ofText text =
      ofBody (splitVisibility (angleBrackets (trim text))).1 (splitVisibility (angleBrackets (trim text))).2 :=
  rfl

theorem ofBody_visibility (visibility : String) (s : List Char) :
    ofBody visibility s = { ofBody "" s with visibility } := by
  unfold ofBody
  dsimp only
  split <;> rfl

theorem visibility_ofBody (visibility : String) (s : List Char) : (ofBody visibility s).visibility = visibility := by
  rw [ofBody_visibility]

theorem not_isBlank_of_mem_visibilityMarks (h : mark ∈ visibilityMarks) : isBlank mark = false := by
  simp only [visibilityMarks, List.mem_cons, List.not_mem_nil, or_false] at h
  rcases h with rfl | rfl | rfl | rfl <;> rfl

theorem splitVisibility_mark (h : mark ∈ visibilityMarks) (hs : s ≠ []) :
    splitVisibility (mark :: s) = (mark.toString, trim s) := by
  have hmark : (visibilityMarks.contains mark && !s.isEmpty) = true := by
    simpa [List.isEmpty_iff] using And.intro h hs
  rw [splitVisibility, if_pos hmark]

theorem splitVisibility_of_notMem (h : c ∉ visibilityMarks) : splitVisibility (c :: s) = ("", c :: s) := by
  have hc : ¬(visibilityMarks.contains c && !s.isEmpty) = true := by simp [h]
  rw [splitVisibility, if_neg hc]

-- A text that starts neither with a blank nor with a mark has no visibility.
theorem ofText_plain (hc : isBlank c = false) (hmark : c ∉ visibilityMarks) :
    ofText (c :: rest) = ofBody "" (c :: angleBrackets (trimEnd rest)) := by
  have htilde : c ≠ '~' := by
    rintro rfl
    exact hmark (by decide)
  rw [ofText_eq, trim_cons hc, angleBrackets_cons_of_ne htilde, splitVisibility_of_notMem hmark]

-- A mark in front of such a text is its visibility, unless it is a tilde and another one follows.
theorem ofText_mark (h : mark ∈ visibilityMarks) (hc : isBlank c = false) (hmark : c ∉ visibilityMarks)
    (rest : List Char) :
    (¬(mark = '~' ∧ '~' ∈ rest) →
        ofText (mark :: c :: rest) = { ofText (c :: rest) with visibility := mark.toString }) ∧
      (mark = '~' ∧ '~' ∈ rest → (ofText (mark :: c :: rest)).visibility = "") := by
  have htilde : c ≠ '~' := by
    rintro rfl
    exact hmark (by decide)
  have htrim : trim (mark :: c :: rest) = mark :: c :: trimEnd rest := by
    rw [trim_cons (not_isBlank_of_mem_visibilityMarks h), trimEnd_cons hc]
  have hblank : isBlank '~' = false := by decide
  constructor
  case left =>
    intro hplain
    have hbrackets : angleBrackets (mark :: c :: trimEnd rest) = mark :: c :: angleBrackets (trimEnd rest) := by
      by_cases hm : mark = '~'
      case pos =>
        have hrest : '~' ∉ trimEnd rest := fun hmem => hplain ⟨hm, (mem_trimEnd hblank).mp hmem⟩
        have hbody : '~' ∉ c :: trimEnd rest := by simp [htilde.symm, hrest]
        rw [angleBrackets_cons_of_notMem mark hbody, angleBrackets_of_notMem hrest]
      case neg => rw [angleBrackets_cons_of_ne hm, angleBrackets_cons_of_ne htilde]
    have htrimmed : IsTrimmed (c :: angleBrackets (trimEnd rest)) := by
      have hbody : IsTrimmed (c :: trimEnd rest) :=
        ⟨by simpa using hc, trimEnd_cons hc rest ▸ getLast?_trimEnd (c :: rest)⟩
      have hangles := isTrimmed_angleBrackets hbody
      rwa [angleBrackets_cons_of_ne htilde] at hangles
    rw [ofText_eq, htrim, hbrackets, splitVisibility_mark h (List.cons_ne_nil _ _), htrimmed.trim_eq,
      ofText_plain hc hmark, ofBody_visibility]
  case right =>
    rintro ⟨rfl, hmem⟩
    have hbody : (c :: trimEnd rest).contains '~' = true := by simp [(mem_trimEnd hblank).mpr hmem]
    have hbrackets : angleBrackets ('~' :: c :: trimEnd rest) = '<' :: angleBrackets.closing (c :: trimEnd rest) := by
      rw [angleBrackets, if_pos rfl, if_pos hbody]
    rw [ofText_eq, htrim, hbrackets, splitVisibility_of_notMem (by decide), visibility_ofBody]

-- Other marks stand in front of generics without harm.
theorem ofText_mark_generic :
    '+' ∈ visibilityMarks ∧ isBlank 'L' = false ∧ 'L' ∉ visibilityMarks ∧
      ofText "+List~int~ items".toList = { ofText "List~int~ items".toList with visibility := "+" } :=
  ⟨by decide, by decide, by decide,
    (ofText_mark (show '+' ∈ visibilityMarks by decide) (show isBlank 'L' = false by decide) (by decide)
      "ist~int~ items".toList).left (by decide)⟩

-- A private attribute of a generic type loses its mark, and its type is cut at the wrong tildes.
theorem ofText_tilde_generic :
    ofText "~List~int~ items".toList = { name := "items", type := some "<List>int~" } ∧
      ofText "~List~int~ items".toList ≠ { ofText "List~int~ items".toList with visibility := "~" } := by
  decide

end Member

end LayeredDiagram.ClassDiagram
