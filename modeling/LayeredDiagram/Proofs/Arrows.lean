import LayeredDiagram.ClassDiagram.Reading
import LayeredDiagram.Proofs.Calls
import LayeredDiagram.Proofs.Visibility
import Mathlib.Data.List.Basic
/-!
Arrows between classes. A relationship that is written on a line is read as it was written: no other meaning of a line
fits, since each arrow has a character that none of them allows, and the blanks around an arrow tell where it ends. The
line declares its two classes and nothing else.
-/

namespace LayeredDiagram.ClassDiagram

open C4 (IsName IsQuotable)
open Text (isBlank isWord IsLine IsTrimmed quote)

-- Between quotes, with a blank behind it.
def writtenCardinality : Option String → List Char
  | some text => quote text.toList ++ [' ']
  | none => []

def writtenLabel : Option String → List Char
  | some text => ' ' :: ':' :: ' ' :: text.toList
  | none => []

namespace Relationship

-- The line of a relationship with an arrow.
def written (r : Relationship) (arrow : String) : List Char :=
  r.source.toList ++ ' ' :: (writtenCardinality r.sourceCardinality ++ (arrow.toList ++ ' ' ::
    (writtenCardinality r.targetCardinality ++ (r.target.toList ++ writtenLabel r.label))))

-- Relationships that can be written with an arrow.
structure IsWritable (r : Relationship) (arrow : String) : Prop where
  arrow_mem : (arrow, r.type, r.markerAt) ∈ arrows
  source : IsName r.source
  target : IsName r.target
  sourceCardinality : ∀ text ∈ r.sourceCardinality, text ≠ "" ∧ IsQuotable text
  targetCardinality : ∀ text ∈ r.targetCardinality, text ≠ "" ∧ IsQuotable text
  label : ∀ text ∈ r.label, text ≠ "" ∧ IsTrimmed text.toList ∧ '\n' ∉ text.toList

end Relationship

-- Each arrow has one of these characters.
def arrowMarks : List Char :=
  ['-', '|', '>']

theorem exists_arrowMark {a : String × String × End} (ha : a ∈ arrows) : ∃ c ∈ arrowMarks, c ∈ a.1.toList := by
  have hany : ∀ a ∈ arrows, arrowMarks.any (a.1.toList.contains ·) := by decide
  simpa using hany a ha

-- They belong to no name and no keyword, and are neither blank nor a brace.
theorem foreign_arrowMarks {c : Char} (h : c ∈ arrowMarks) : c ∉ "namespace".toList ∧ c ∉ "class".toList ∧
    isBlank c = false ∧ (isWord c || c == '.') = false ∧ Statement.isNameChar c = false ∧ c ≠ '\x7b' := by
  simp only [arrowMarks, List.mem_cons, List.not_mem_nil, or_false] at h
  rcases h with rfl | rfl | rfl <;> decide

theorem lookup_arrows : ∀ a ∈ arrows, arrows.lookup a.1 = some a.2 := by
  decide

section Arrows

variable {a : String × String × End} (ha : a ∈ arrows)
include ha

theorem isBlank_arrow : ∀ c ∈ a.1.toList, isBlank c = false := by
  have hall : ∀ a ∈ arrows, a.1.toList.all (!isBlank ·) := by decide
  simpa using hall a ha

theorem head_arrow (rest : List Char) : ∀ c ∈ (a.1.toList ++ rest).head?, isBlank c = false ∧ c ≠ '"' := by
  have hplain : ∀ a ∈ arrows, a.1.toList ≠ [] ∧ '"' ∉ a.1.toList := by decide
  obtain ⟨hne, hquote⟩ := hplain a ha
  intro c hc
  have hmem := Text.mem_of_mem_head?_append hne hc
  exact ⟨isBlank_arrow ha c hmem, fun heq => hquote (heq ▸ hmem)⟩

-- An arrow ends at the first blank.
theorem takeWhile_arrow (rest : List Char) : (a.1.toList ++ ' ' :: rest).takeWhile (!isBlank ·) = a.1.toList := by
  have hplain : ∀ c ∈ a.1.toList, !isBlank c := fun c hc => by simp [isBlank_arrow ha c hc]
  rw [List.takeWhile_append_of_pos hplain, List.takeWhile_cons_of_neg (by decide), List.append_nil]

end Arrows

namespace Statement

section Others

variable {line rest : List Char} {keyword : String} {c : Char}

theorem mem_of_afterKeyword? (h : afterKeyword? keyword line = some rest) (hc : c ∈ line) (hk : c ∉ keyword.toList)
    (hb : isBlank c = false) : c ∈ rest := by
  obtain ⟨s, hs, hrest⟩ := Option.bind_eq_some_iff.mp h
  exact Text.mem_of_gap? hrest (Text.mem_of_after? hs hc hk) hb

theorem opens_eq_false (hc : c ∈ rest) (hbrace : c ≠ '\x7b') (hb : isBlank c = false) : opens rest = false := by
  rw [opens, beq_eq_false_iff_ne]
  intro heq
  have hmem := Text.mem_trimStart hc hb
  rw [heq, List.mem_singleton] at hmem
  exact hbrace hmem

variable (hmark : c ∈ arrowMarks) (hc : c ∈ line)
include hmark hc

-- A mark is not lost on the way to the brace.
theorem openNamespace?_eq_none : openNamespace? line = none := by
  obtain ⟨hk, _, hb, hp, _, hbrace⟩ := foreign_arrowMarks hmark
  simp only [openNamespace?, Option.bind_eq_bind, Option.bind_eq_none_iff, Prod.forall]
  intro s hs name rest hrun
  have hrest := Text.mem_of_run? hrun (mem_of_afterKeyword? hs hc hk hb) hp
  rw [opens_eq_false hrest hbrace hb]
  rfl

theorem class?_eq_none : class? line = none := by
  obtain ⟨_, hk, hb, _, hp, hbrace⟩ := foreign_arrowMarks hmark
  simp only [class?, Option.bind_eq_bind, Option.bind_eq_none_iff, Prod.forall]
  intro s hs name rest hrun
  have hrest := Text.mem_of_run? hrun (mem_of_afterKeyword? hs hc hk hb) hp
  rw [opens_eq_false hrest hbrace hb, List.isEmpty_eq_false_iff.mpr (List.ne_nil_of_mem hrest)]
  rfl

end Others

theorem stereotype?_eq_none {line : List Char} (h : line.head? ≠ some '<') : stereotype? line = none := by
  have hafter : Text.after? ['<', '<'] line = none := by
    cases line
    case nil => rfl
    case cons c line => simp [Text.after?, Ne.symm (by simpa using h)]
  simp [stereotype?, bracketed?, hafter]

section Parts

variable {name : String} {rest : List Char} {cardinality label : Option String}

theorem isNameChar_of_isWord {c : Char} (h : isWord c) : isNameChar c := by
  simp [isNameChar, h]

theorem name?_append (hn : IsName name) (hr : ∀ c ∈ rest.head?, isNameChar c = false) :
    name? (name.toList ++ rest) = some (name.toList, rest) :=
  Text.run?_append hn.toList_ne_nil (fun c hc => isNameChar_of_isWord (hn.isWord c hc)) hr

variable (hr : ∀ c ∈ rest.head?, isBlank c = false ∧ c ≠ '"')
include hr

theorem gap?_cardinality (cardinality : Option String) :
    Text.gap? (' ' :: (writtenCardinality cardinality ++ rest)) = some (writtenCardinality cardinality ++ rest) := by
  refine Text.gap?_cons fun c hc => ?_
  cases cardinality
  case none => exact (hr c hc).left
  case some text =>
    obtain rfl : '"' = c := Option.some.inj hc
    decide

theorem cardinality?_written (hc : ∀ text ∈ cardinality, text ≠ "" ∧ IsQuotable text) :
    cardinality? (writtenCardinality cardinality ++ rest) = some (cardinality, rest) := by
  cases cardinality
  case none =>
    rw [writtenCardinality, List.nil_append, cardinality?]
    exact fun tail heq => (hr '"' (heq ▸ rfl)).right rfl
  case some text =>
    obtain ⟨hne, hq⟩ := hc text rfl
    have hquotation : Text.quotation? (quote text.toList ++ ' ' :: rest) = some (text.toList, ' ' :: rest) :=
      Text.quotation?_quote hq.noQuote _
    have hgap : Text.gap? (' ' :: rest) = some rest := Text.gap?_cons fun c hc => (hr c hc).left
    have hquote : quote text.toList ++ ' ' :: rest = '"' :: (text.toList ++ '"' :: ' ' :: rest) := by simp [quote]
    rw [hquote] at hquotation
    simp [writtenCardinality, hquote, cardinality?, hquotation, hgap, hne, String.ofList_toList]

end Parts

theorem head_writtenLabel (label : Option String) : ∀ c ∈ (writtenLabel label).head?, isNameChar c = false := by
  cases label
  case none => nofun
  case some text =>
    rintro c ⟨rfl⟩
    decide

theorem label?_written {label : Option String}
    (h : ∀ text ∈ label, text ≠ "" ∧ IsTrimmed text.toList ∧ '\n' ∉ text.toList) :
    label? (writtenLabel label) = some label := by
  cases label
  case none => rfl
  case some text =>
    obtain ⟨hne, htrimmed, -⟩ := h text rfl
    have htrim : Text.trim (' ' :: text.toList) = text.toList := htrimmed.trim_eq
    have hempty : text.toList.isEmpty = false := by simpa using hne
    have hstart : Text.trimStart (writtenLabel (some text)) = ':' :: ' ' :: text.toList := rfl
    simp [label?, hstart, htrim, hempty, String.ofList_toList]

variable {r : Relationship} {arrow : String}

theorem relationship?_written (h : r.IsWritable arrow) : relationship? (r.written arrow) =
    some (.relationship r.source.toList r.target.toList { r with source := "", target := "" }) := by
  have hsource (rest : List Char) : name? (r.source.toList ++ ' ' :: rest) = some (r.source.toList, ' ' :: rest) :=
    name?_append h.source fun c hc => by
      obtain rfl : ' ' = c := Option.some.inj hc
      decide
  have htarget : ∀ c ∈ (r.target.toList ++ writtenLabel r.label).head?, isBlank c = false ∧ c ≠ '"' := fun c hc =>
    have hword := h.target.isWord c (Text.mem_of_mem_head?_append h.target.toList_ne_nil hc)
    ⟨Text.isBlank_of_isWord hword, Text.ne_of_isWord hword (by decide)⟩
  simp only [relationship?, Relationship.written, hsource, Option.bind_eq_bind, Option.bind_some,
    gap?_cardinality (head_arrow h.arrow_mem _), cardinality?_written (head_arrow h.arrow_mem _) h.sourceCardinality,
    takeWhile_arrow h.arrow_mem, String.ofList_toList, lookup_arrows _ h.arrow_mem, List.drop_left,
    gap?_cardinality htarget, cardinality?_written htarget h.targetCardinality,
    name?_append h.target (head_writtenLabel r.label), label?_written h.label]

-- Of all meanings of a line only that of a relationship fits.
theorem ofLine?_written (h : r.IsWritable arrow) : ofLine? (r.written arrow) =
    some (.relationship r.source.toList r.target.toList { r with source := "", target := "" }) := by
  obtain ⟨c, hmark, hc⟩ := exists_arrowMark h.arrow_mem
  have hmem : c ∈ r.written arrow := by simp [Relationship.written, hc]
  have hclose : r.written arrow ≠ ['\x7d'] := by
    intro heq
    rw [heq, List.mem_singleton] at hmem
    subst hmem
    exact absurd hmark (by decide)
  have hhead : (r.written arrow).head? ≠ some '<' := by
    intro heq
    have hword := h.source.isWord '<' (Text.mem_of_mem_head?_append h.source.toList_ne_nil heq)
    exact absurd hword (by decide)
  rw [ofLine?, if_neg hclose, openNamespace?_eq_none hmark hmem, class?_eq_none hmark hmem,
    stereotype?_eq_none hhead, relationship?_written h]
  rfl

end Statement

namespace Relationship

variable {r : Relationship} {arrow : String}

theorem noBreak_writtenCardinality {cardinality : Option String}
    (h : ∀ text ∈ cardinality, text ≠ "" ∧ IsQuotable text) : '\n' ∉ writtenCardinality cardinality := by
  cases cardinality
  case none => exact List.not_mem_nil
  case some text => simp [writtenCardinality, quote, (h text rfl).right.noBreak]

theorem noBreak_writtenLabel {label : Option String}
    (h : ∀ text ∈ label, text ≠ "" ∧ IsTrimmed text.toList ∧ '\n' ∉ text.toList) : '\n' ∉ writtenLabel label := by
  cases label
  case none => exact List.not_mem_nil
  case some text => simp [writtenLabel, (h text rfl).right.right]

-- The end of the target, or of the label.
theorem isBlank_of_mem_getLast? (h : r.IsWritable arrow) {c : Char}
    (hc : c ∈ (r.target.toList ++ writtenLabel r.label).getLast?) : isBlank c = false := by
  cases hl : r.label
  case none =>
    rw [hl, writtenLabel, List.append_nil] at hc
    exact Text.isBlank_of_isWord (h.target.isWord c (List.mem_of_getLast? hc))
  case some text =>
    obtain ⟨hne, htrimmed, -⟩ := h.label text hl
    have htext : r.target.toList ++ writtenLabel r.label = r.target.toList ++ [' ', ':', ' '] ++ text.toList := by
      simp [hl, writtenLabel]
    rw [htext, List.getLast?_append_of_ne_nil _ fun hnil => hne (String.toList_eq_nil_iff.mp hnil)] at hc
    exact htrimmed.last c hc

theorem isLine_written (h : r.IsWritable arrow) : IsLine (r.written arrow) := by
  have hword {c : Char} (hc : c ∈ (r.written arrow).head?) : isWord c :=
    h.source.isWord c (Text.mem_of_mem_head?_append h.source.toList_ne_nil hc)
  have hname {name : String} (hn : IsName name) : '\n' ∉ name.toList :=
    fun hc => absurd (hn.isWord _ hc) (by decide)
  refine ⟨⟨fun c hc => Text.isBlank_of_isWord (hword hc), fun c hc => ?last⟩, ?ne_nil, ?noComment, ?noBreak⟩
  case last =>
    have htail : r.written arrow = r.source.toList ++ ' ' :: (writtenCardinality r.sourceCardinality ++
        (arrow.toList ++ ' ' :: writtenCardinality r.targetCardinality)) ++
          (r.target.toList ++ writtenLabel r.label) := by
      simp [written]
    rw [htail, List.getLast?_append_of_ne_nil _ (List.append_ne_nil_of_left_ne_nil h.target.toList_ne_nil _)] at hc
    exact isBlank_of_mem_getLast? h hc
  case ne_nil => simp [written]
  case noComment => exact fun heq => absurd (hword heq) (by decide)
  case noBreak =>
    have harrow : '\n' ∉ arrow.toList :=
      fun hc => absurd (isBlank_arrow h.arrow_mem _ hc) (by decide)
    simp [written, hname h.source, hname h.target, harrow, noBreak_writtenLabel h.label,
      noBreak_writtenCardinality h.sourceCardinality, noBreak_writtenCardinality h.targetCardinality]

end Relationship

namespace Diagram

-- Declares a class under its own name unless there is one.
def mention (d : Diagram) (id : String) : Diagram :=
  if (d.class? id).isSome then d else { d with classes := d.classes ++ [{ id, label := id }] }

-- Puts a relationship last, with its classes.
def relate (d : Diagram) (r : Relationship) : Diagram :=
  let d := (d.mention r.source).mention r.target
  { d with relationships := d.relationships ++ [r] }

theorem splitGeneric_eq {s : List Char} (h : '~' ∉ s) : splitGeneric s = (s, s) := by
  have htake : s.takeWhile (· ≠ '~') = s :=
    List.takeWhile_eq_self_iff.mpr fun c hc => by simpa using fun heq : c = '~' => h (heq ▸ hc)
  rw [splitGeneric, htake, angleBrackets_of_notMem h]

variable {d : Diagram} {id : String}

theorem ensureClass_name (hid : IsName id) : d.ensureClass id.toList none = (d.mention id, id) := by
  have htilde : '~' ∉ id.toList := fun hc => absurd (hid.isWord _ hc) (by decide)
  simp only [ensureClass, splitGeneric_eq htilde, String.ofList_toList, declare, mention]
  cases d.class? id <;> simp

end Diagram

namespace Draft

variable {r : Relationship} {arrow : String}

-- What has been read of a text.
def ofText (text : String) : Draft :=
  (Text.bodyLines text).foldl addLine {}

theorem addLine_written (h : r.IsWritable arrow) {d : Draft} (hd : d.inClass = none) (isIndented : Bool) :
    d.addLine { content := r.written arrow, isIndented } = { d with diagram := d.diagram.relate r } := by
  simp only [addLine, hd, Statement.ofLine?_written h, add, Diagram.ensureClass_name h.source,
    Diagram.ensureClass_name h.target, Diagram.relate]

theorem ofText_append {before : String} (h : Text.linesOf before.toList ≠ []) (after : String) :
    ofText (before ++ "\n" ++ after) = (Text.linesOf after.toList).foldl addLine (ofText before) := by
  rw [ofText, Text.bodyLines_append h, List.foldl_append, ofText]

end Draft

-- The line of a relationship, anywhere outside of class blocks and with any blanks around it, puts the relationship
-- last. It declares the two classes, and nothing else changes, for the lines before it and for those that follow.
theorem Diagram.ofText_relationship {r : Relationship} {arrow : String} (h : r.IsWritable arrow) {before : String}
    (hheader : Text.linesOf before.toList ≠ []) (hblock : (Draft.ofText before).inClass = none)
    {line : String} {indent trail : List Char} (hline : line.toList = indent ++ r.written arrow ++ trail)
    (hblank : ∀ c ∈ indent ++ trail, isBlank c ∧ c ≠ '\n') (after : String) :
    ofText (before ++ "\n" ++ line) = (ofText before).relate r ∧
      ofText (before ++ "\n" ++ line ++ "\n" ++ after) =
        ((Text.linesOf after.toList).foldl Draft.addLine
          { Draft.ofText before with diagram := (ofText before).relate r }).diagram := by
  have hread := (Relationship.isLine_written h).linesOf_padded hblank
  rw [← hline] at hread
  have hdraft : Draft.ofText (before ++ "\n" ++ line) =
      { Draft.ofText before with diagram := (ofText before).relate r } := by
    rw [Draft.ofText_append hheader, hread, List.foldl_cons, List.foldl_nil, Draft.addLine_written h hblock]
    rfl
  have hlines : Text.linesOf (before ++ "\n" ++ line).toList ≠ [] := by
    simp [String.toList_append, Text.linesOf_append, hread]
  constructor
  · exact congrArg Draft.diagram hdraft
  · rw [← hdraft, ← Draft.ofText_append hlines]
    rfl

-- Its classes are named like keywords, and its texts look like parts of a line.
def Relationship.ofKeywords : Relationship where
  source := "class"
  target := "namespace"
  type := "aggregation"
  markerAt := .source
  label := some "a --> b : c"
  sourceCardinality := some "0..1"
  targetCardinality := some "\x7b \x7d"

theorem Diagram.ofText_relationship_ofKeywords :
    ofText ("classDiagram" ++ "\n" ++ "  class \"0..1\" o-- \"\x7b \x7d\" namespace : a --> b : c") =
      { classes := [{ id := "class", label := "class" }, { id := "namespace", label := "namespace" }]
        relationships := [.ofKeywords] } := by
  have hwritable : Relationship.ofKeywords.IsWritable "o--" := by
    constructor
    case arrow_mem => decide
    case source => exact ⟨by decide, List.all_eq_true.mp (by decide)⟩
    case target => exact ⟨by decide, List.all_eq_true.mp (by decide)⟩
    case sourceCardinality =>
      rintro text ⟨rfl⟩
      exact ⟨by decide, by decide, by decide⟩
    case targetCardinality =>
      rintro text ⟨rfl⟩
      exact ⟨by decide, by decide, by decide⟩
    case label =>
      rintro text ⟨rfl⟩
      exact ⟨by decide, by decide, by decide⟩
  have hline : "  class \"0..1\" o-- \"\x7b \x7d\" namespace : a --> b : c".toList =
      [' ', ' '] ++ Relationship.ofKeywords.written "o--" ++ [] := by
    decide
  have hblank : ∀ c ∈ [' ', ' '] ++ [], isBlank c ∧ c ≠ '\n' := by
    intro c hc
    obtain rfl : c = ' ' := by simpa using hc
    decide
  exact (ofText_relationship hwritable (by decide) rfl hline hblank "").left

end LayeredDiagram.ClassDiagram
