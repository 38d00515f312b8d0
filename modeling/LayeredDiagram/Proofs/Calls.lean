import LayeredDiagram.C4.Reading
import LayeredDiagram.Proofs.Quoting
/-!
Calls in C4 texts: a keyword with names and quoted texts in parentheses. What is written is what is read, for elements,
boundaries and relationships, as long as no text holds a closing parenthesis: the first one ends the arguments, quotes
or not.
-/

namespace LayeredDiagram.C4

-- A name that needs no quotes.
structure IsName (s : String) : Prop where
  ne_empty : s ≠ ""
  isWord : ∀ c ∈ s.toList, Text.isWord c

theorem IsName.toList_ne_nil {s : String} (h : IsName s) : s.toList ≠ [] :=
  fun hnil => h.ne_empty (String.toList_eq_nil_iff.mp hnil)

-- A text that can stand between quotes on one line.
structure IsQuotable (s : String) : Prop where
  noQuote : '"' ∉ s.toList
  noBreak : '\n' ∉ s.toList

-- Names as they are, and texts between quotes.
def writtenArguments (names texts : List String) : List (List Char) :=
  names.map String.toList ++ texts.map fun t => Text.quote t.toList

-- A keyword with its arguments in parentheses.
def writtenCall (keyword : String) (names texts : List String) : List Char :=
  keyword.toList ++ '(' :: (Text.join [',', ' '] (writtenArguments names texts) ++ [')'])

-- A text of two lines.
def document (header : String) (line : List Char) : String :=
  String.ofList (header.toList ++ '\n' :: line)

section Arguments

variable {names texts : List String}

theorem mem_writtenArguments {a : List Char} (h : a ∈ writtenArguments names texts) :
    (∃ n ∈ names, a = n.toList) ∨ ∃ t ∈ texts, a = Text.quote t.toList := by
  simp only [writtenArguments, List.mem_append, List.mem_map] at h
  rcases h with ⟨n, hn, rfl⟩ | ⟨t, ht, rfl⟩
  · exact .inl ⟨n, hn, rfl⟩
  · exact .inr ⟨t, ht, rfl⟩

variable (hn : ∀ n ∈ names, IsName n) (ht : ∀ t ∈ texts, IsQuotable t)
include hn ht

theorem arguments_writtenArguments :
    Text.arguments (Text.join [',', ' '] (writtenArguments names texts)) = writtenArguments names texts := by
  refine Text.arguments_join (List.forall_mem_singleton.mpr rfl) (fun a ha => ?_) fun hnil => ?_
  case refine_1 =>
    rcases mem_writtenArguments ha with ⟨n, hmem, rfl⟩ | ⟨t, hmem, rfl⟩
    · exact ⟨Text.isField_of_plain fun c hc => ⟨Text.ne_of_isWord ((hn n hmem).isWord c hc) (by decide),
        Text.ne_of_isWord ((hn n hmem).isWord c hc) (by decide)⟩, Text.isTrimmed_of_isWord (hn n hmem).isWord⟩
    · exact ⟨Text.isField_quote (ht t hmem).noQuote, Text.isTrimmed_quote _⟩
  case refine_2 =>
    rcases mem_writtenArguments hnil with ⟨n, hmem, h⟩ | ⟨t, _, h⟩
    · exact (hn n hmem).toList_ne_nil h.symm
    · simp [Text.quote] at h

omit ht in
theorem map_unquote_writtenArguments :
    (writtenArguments names texts).map (fun a => String.ofList (Text.unquote a)) = names ++ texts := by
  have hname : ∀ n ∈ names, String.ofList (Text.unquote n.toList) = n := by
    intro n hmem
    have h : ∀ c ∈ n.toList, c ≠ '"' := fun c hc => Text.ne_of_isWord ((hn n hmem).isWord c hc) (by decide)
    have hu : Text.unquote n.toList = n.toList := by
      unfold Text.unquote
      split
      case h_1 hq => exact absurd rfl (h '"' (hq ▸ List.mem_cons_self))
      case h_2 => rfl
    rw [hu, String.ofList_toList]
  simp only [writtenArguments, List.map_append, List.map_map, Function.comp_def, Text.unquote_quote,
    String.ofList_toList, List.map_id']
  rw [List.map_congr_left hname, List.map_id']

omit ht in
theorem argument_writtenArguments (i : Nat) :
    Statement.argument (writtenArguments names texts) i = ((names ++ texts)[i]?).getD "" := by
  rw [← map_unquote_writtenArguments hn, List.getElem?_map, Statement.argument]
  cases (writtenArguments names texts)[i]?
  case none => rfl
  case some => rfl

end Arguments

-- What a call starts with: word characters, and none that a title starts with.
def IsKeyword (s : String) : Prop :=
  (∀ c ∈ s.toList, Text.isWord c) ∧ ∃ c ∈ s.toList.head?, c ≠ 't' ∧ c ≠ 'T'

instance : DecidablePred IsKeyword := fun s =>
  decidable_of_iff (s.toList.all Text.isWord ∧ s.toList.head?.any fun c => c != 't' && c != 'T')
    (by simp [IsKeyword, Option.any_eq_true])

-- The keyword of a kind of elements.
def elementKeyword (kind : String) (isExternal : Bool) : String :=
  if isExternal then kind ++ externalMark else kind

theorem isKeyword_elementKeyword : ∀ kind ∈ plainKinds ++ technicalKinds, ∀ isExternal,
    IsKeyword (elementKeyword kind isExternal) := by
  decide +kernel

theorem isKeyword_boundaryKinds : ∀ kind ∈ boundaryKinds, IsKeyword kind := by
  decide +kernel

theorem isKeyword_relationshipKinds : ∀ k ∈ relationshipKinds, IsKeyword k.1 := by
  decide +kernel

theorem elementKind?_elementKeyword : ∀ kind ∈ plainKinds ++ technicalKinds, ∀ isExternal,
    Statement.elementKind? (elementKeyword kind isExternal) = some (kind, isExternal) := by
  decide +kernel

theorem elementKind?_relationshipKinds : ∀ k ∈ relationshipKinds, Statement.elementKind? k.1 = none := by
  decide +kernel

theorem lookup_relationshipKinds : ∀ k ∈ relationshipKinds, relationshipKinds.lookup k.1 = some k.2 := by
  decide +kernel

theorem isLine_header : ∀ header ∈ headers, Text.IsLine header.toList := by
  decide +kernel

section Lines

variable {keyword : String} {names texts : List String} {tail : List Char}

theorem IsKeyword.title?_eq (h : IsKeyword keyword) (s : List Char) :
    Statement.title? (keyword.toList ++ s) = none := by
  obtain ⟨c, hc, ht, hT⟩ := h.right
  obtain ⟨k, hk⟩ : ∃ k, keyword.toList = c :: k := List.head?_eq_some_iff.mp hc
  rw [hk]
  simp [Statement.title?, Statement.titleLetters, Statement.afterTitle?, ht, hT]

theorem IsKeyword.word?_eq (h : IsKeyword keyword) (s : List Char) :
    Text.word? (keyword.toList ++ '(' :: s) = some (keyword.toList, '(' :: s) := by
  obtain ⟨c, hc, -⟩ := h.right
  have hne : keyword.toList ≠ [] := fun hnil => by simp [hnil] at hc
  refine Text.run?_append hne h.left fun d hd => ?_
  obtain rfl : '(' = d := Option.some.inj hd
  decide

-- The first closing parenthesis ends the arguments.
theorem IsKeyword.call?_eq (h : IsKeyword keyword) {s : List Char} (hs : ')' ∉ s) (t : List Char) :
    Statement.call? (keyword.toList ++ '(' :: (s ++ ')' :: t)) = some (keyword, Text.arguments s, t) := by
  have hstart : Text.trimStart ('(' :: (s ++ ')' :: t)) = '(' :: (s ++ ')' :: t) := rfl
  obtain ⟨htake, hdrop⟩ := Text.takeWhile_of_notMem hs t
  simp only [Statement.call?, h.word?_eq, Option.bind_eq_bind, Option.bind_some, hstart, htake, hdrop,
    String.ofList_toList]

theorem mem_join_iff {c : Char} (hn : ∀ n ∈ names, IsName n) (hw : Text.isWord c = false)
    (hc : c ≠ ',' ∧ c ≠ ' ' ∧ c ≠ '"') :
    c ∈ Text.join [',', ' '] (writtenArguments names texts) ↔ ∃ t ∈ texts, c ∈ t.toList := by
  constructor
  case mp =>
    intro h
    rcases Text.mem_join h with h | ⟨a, ha, hca⟩
    · simp [hc] at h
    · rcases mem_writtenArguments ha with ⟨n, hmem, rfl⟩ | ⟨t, hmem, rfl⟩
      · exact absurd ((hn n hmem).isWord c hca) (by simp [hw])
      · exact ⟨t, hmem, by simpa [Text.quote, hc] using hca⟩
  case mpr =>
    rintro ⟨t, hmem, hct⟩
    have ha : Text.quote t.toList ∈ writtenArguments names texts := by
      simpa [writtenArguments] using .inr ⟨t, hmem, rfl⟩
    exact Text.subset_join ha (by simp [Text.quote, hct])

theorem getLast?_join (ht : texts ≠ []) :
    (Text.join [',', ' '] (writtenArguments names texts)).getLast? = some '"' := by
  obtain ⟨init, t, rfl⟩ := List.eq_nil_or_concat texts |>.resolve_left ht
  have hw : writtenArguments names (init ++ [t]) = writtenArguments names init ++ [Text.quote t.toList] := by
    simp [writtenArguments]
  obtain ⟨s, hs⟩ : Text.quote t.toList <:+
      Text.join [',', ' '] (writtenArguments names init ++ [Text.quote t.toList]) := Text.suffix_join_concat _ _
  simp only [List.concat_eq_append]
  rw [hw, ← hs, Text.quote, ← List.append_assoc, List.getLast?_concat]

variable (hk : IsKeyword keyword) (hn : ∀ n ∈ names, IsName n) (ht : ∀ t ∈ texts, IsQuotable t)
include hk hn ht

theorem ofLine?_call (hp : ¬∃ t ∈ texts, ')' ∈ t.toList) (tail : List Char) :
    Statement.ofLine? (writtenCall keyword names texts ++ tail) =
      if Text.trimStart tail = ['\x7b'] then Statement.boundary? keyword (writtenArguments names texts)
      else if tail.isEmpty then
        ((Statement.element? keyword (writtenArguments names texts)).map .element).or
          ((Statement.relationship? keyword (writtenArguments names texts)).map .relationship)
      else none := by
  have hs : ')' ∉ Text.join [',', ' '] (writtenArguments names texts) :=
    (mem_join_iff hn (by decide) (by decide)).not.mpr hp
  have hcall := hk.call?_eq hs tail
  rw [arguments_writtenArguments hn ht] at hcall
  have hline : writtenCall keyword names texts ++ tail =
      keyword.toList ++ '(' :: (Text.join [',', ' '] (writtenArguments names texts) ++ ')' :: tail) := by
    simp [writtenCall]
  have hne : keyword.toList ++ '(' :: (Text.join [',', ' '] (writtenArguments names texts) ++ ')' :: tail) ≠
      ['\x7d'] := fun heq => by simpa using congrArg ('(' ∈ ·) heq
  rw [hline, Statement.ofLine?, hk.title?_eq]
  simp only [if_neg hne, hcall, Option.bind_eq_bind, Option.bind_some]

omit ht in
-- A closing parenthesis between quotes ends the arguments too early.
theorem ofLine?_call_eq_none (hp : ∃ t ∈ texts, ')' ∈ t.toList) (tail : List Char) :
    Statement.ofLine? (writtenCall keyword names texts ++ tail) = none := by
  have hlast : (Text.join [',', ' '] (writtenArguments names texts)).getLast? = some '"' :=
    getLast?_join fun hnil => by simp [hnil] at hp
  obtain ⟨s, t, hst, hs⟩ := List.eq_append_cons_of_mem ((mem_join_iff hn (by decide) (by decide)).mpr hp)
  have hline : writtenCall keyword names texts ++ tail =
      keyword.toList ++ '(' :: (s ++ ')' :: (t ++ ')' :: tail)) := by
    simp [writtenCall, hst]
  have hquote : '"' ∈ t := by
    rw [hst, List.getLast?_append, List.getLast?_cons] at hlast
    cases ht : t.getLast?
    case none => simp [ht] at hlast
    case some c => exact List.mem_of_getLast? (ht.trans (by simpa [ht] using hlast))
  have hrest : '"' ∈ Text.trimStart (t ++ ')' :: tail) := Text.mem_trimStart (by simp [hquote]) (by decide)
  have hne : keyword.toList ++ '(' :: (s ++ ')' :: (t ++ ')' :: tail)) ≠ ['\x7d'] := fun heq => by
    simpa using congrArg ('(' ∈ ·) heq
  have hopen : Text.trimStart (t ++ ')' :: tail) ≠ ['\x7b'] := fun heq => by simp [heq] at hrest
  rw [hline, Statement.ofLine?, hk.title?_eq]
  simp [if_neg hne, hk.call?_eq hs, hopen]

theorem isLine_call {tail : List Char} (hline : Text.IsLine (')' :: tail)) :
    Text.IsLine (writtenCall keyword names texts ++ tail) := by
  obtain ⟨c, hc, -⟩ := hk.right
  have hhead : (writtenCall keyword names texts ++ tail).head? = some c := by
    simp [writtenCall, Option.mem_def.mp hc]
  have hword := hk.left c (List.mem_of_mem_head? hc)
  constructor
  case toIsTrimmed =>
    constructor
    case head =>
      intro d hd
      obtain rfl : c = d := Option.some.inj (hhead.symm.trans hd)
      exact Text.isBlank_of_isWord hword
    case last =>
      have hconcat : writtenCall keyword names texts ++ tail =
          keyword.toList ++ '(' :: Text.join [',', ' '] (writtenArguments names texts) ++ (')' :: tail) := by
        simp [writtenCall]
      rw [hconcat, List.getLast?_append, List.getLast?_cons]
      simpa [List.getLast?_cons] using hline.last
  case ne_nil => exact fun hnil => by simp [hnil] at hhead
  case noComment =>
    rw [hhead]
    rintro ⟨rfl⟩
    exact absurd hword (by decide)
  case noBreak =>
    have hk : '\n' ∉ keyword.toList := fun hmem => absurd (hk.left _ hmem) (by decide)
    have hj : '\n' ∉ Text.join [',', ' '] (writtenArguments names texts) := by
      rw [mem_join_iff hn (by decide) (by decide)]
      exact fun ⟨t, hmem, ht'⟩ => (ht t hmem).noBreak ht'
    have htail : '\n' ∉ tail := fun hmem => hline.noBreak (List.mem_cons_of_mem _ hmem)
    simp [writtenCall, hk, hj, htail]

end Lines

-- Whether a text holds what ends the arguments of a call.
def EndsCall (texts : List String) : Prop :=
  ∃ t ∈ texts, ')' ∈ t.toList

instance : DecidablePred EndsCall := fun _ =>
  inferInstanceAs (Decidable (∃ t ∈ _, _))

-- The element that texts describe; an empty optional text counts as none.
def describedElement (kind : String) (isExternal : Bool) (id : String) (texts : List String) : Element :=
  let technical := technicalKinds.contains kind
  { kind, isExternal, id
    label := texts[0]?.getD ""
    technology := if technical then shown? texts[1]? else none
    description := shown? texts[if technical then 2 else 1]? }

-- The relationship that texts describe, if they include a label.
def describedRelationship (k : String × Option Direction) (source target : String) (texts : List String) :
    Option Relationship :=
  texts[0]?.map fun label =>
    { source, target, label, technology := texts[1]?, direction := k.2, isBidirectional := k.1 == "BiRel" }

section Statements

variable {texts : List String}

theorem shown?_getD (s : Option String) : shown? (some (s.getD "")) = shown? s := by
  cases s
  case none => rfl
  case some s => rfl

theorem element?_call {kind : String} (hk : kind ∈ plainKinds ++ technicalKinds) (isExternal : Bool) {id : String}
    (hid : IsName id) :
    Statement.element? (elementKeyword kind isExternal) (writtenArguments [id] texts) =
      some (describedElement kind isExternal id texts) := by
  have hn : ∀ n ∈ [id], IsName n := by simpa using hid
  simp only [Statement.element?, elementKind?_elementKeyword kind hk isExternal, Option.bind_eq_bind, Option.bind_some,
    Statement.optionalArgument, argument_writtenArguments hn, shown?_getD, describedElement]
  cases technicalKinds.contains kind <;> rfl

theorem relationship?_call {k : String × Option Direction} (hk : k ∈ relationshipKinds) {source target : String}
    (hs : IsName source) (ht : IsName target) :
    Statement.relationship? k.1 (writtenArguments [source, target] texts) =
      describedRelationship k source target texts := by
  have hn : ∀ n ∈ [source, target], IsName n := by simpa using ⟨hs, ht⟩
  have htechnology : (((writtenArguments [source, target] texts)[3]?).filter (!·.isEmpty)).map
      (fun a => String.ofList (Text.unquote a)) = texts[1]? := by
    cases h : texts[1]?
    case none => simp [writtenArguments, h]
    case some t =>
      have hq : (Text.quote t.toList).isEmpty = false := rfl
      simp [writtenArguments, h, Option.filter, hq, Text.unquote_quote]
  simp only [Statement.relationship?, lookup_relationshipKinds k hk, Option.bind_eq_bind, Option.bind_some, htechnology,
    argument_writtenArguments hn, describedRelationship]
  cases texts
  case nil => rfl
  case cons t more => simp [writtenArguments]

theorem boundary?_call {keyword : String} (hk : keyword ∈ boundaryKinds) {id : String} (hid : IsName id) :
    Statement.boundary? keyword (writtenArguments [id] texts) = some (.boundary keyword id (texts.headD id)) := by
  have hn : ∀ n ∈ [id], IsName n := by simpa using hid
  have hcontains : boundaryKinds.contains keyword := List.contains_iff_mem.mpr hk
  simp only [Statement.boundary?, hcontains, if_true, argument_writtenArguments hn]
  cases texts
  case nil => rfl
  case cons t more => simp [writtenArguments]

theorem ofText_document {header : String} (hh : header ∈ headers) {line : List Char} (hl : Text.IsLine line) :
    Diagram.ofText (document header line) = Diagram.ofStatements header (Statement.ofLine? line).toList := by
  have hheader : headers.contains header := List.contains_iff_mem.mpr hh
  simp only [Diagram.ofText, document, Text.meaningfulLines_pair (isLine_header header hh) hl, List.headD_cons,
    String.ofList_toList, hheader, if_true, List.drop_succ_cons, List.drop_zero]
  cases h : Statement.ofLine? line <;> simp [h]

-- What a document says whose only line is a call.
theorem ofText_writtenCall {header : String} (hh : header ∈ headers) {keyword : String} (hk : IsKeyword keyword)
    {names : List String} (hn : ∀ n ∈ names, IsName n) (ht : ∀ t ∈ texts, IsQuotable t) :
    Diagram.ofText (document header (writtenCall keyword names texts)) =
        Diagram.ofStatements header (if EndsCall texts then [] else
          (((Statement.element? keyword (writtenArguments names texts)).map .element).or
            ((Statement.relationship? keyword (writtenArguments names texts)).map .relationship)).toList) ∧
      Diagram.ofText (document header (writtenCall keyword names texts ++ [' ', '\x7b'])) =
        Diagram.ofStatements header (if EndsCall texts then [] else
          (Statement.boundary? keyword (writtenArguments names texts)).toList) := by
  have hcall : Text.IsLine (writtenCall keyword names texts) := by
    simpa using isLine_call hk hn ht (show Text.IsLine [')'] by decide)
  have hopen : Text.IsLine (writtenCall keyword names texts ++ [' ', '\x7b']) :=
    isLine_call hk hn ht (by decide)
  rw [ofText_document hh hcall, ofText_document hh hopen]
  by_cases hp : EndsCall texts
  case pos =>
    have hnone := ofLine?_call_eq_none hk hn hp []
    rw [List.append_nil] at hnone
    simp [hp, hnone, ofLine?_call_eq_none hk hn hp [' ', '\x7b']]
  case neg =>
    have hline := ofLine?_call hk hn ht hp []
    rw [List.append_nil] at hline
    rw [hline, ofLine?_call hk hn ht hp [' ', '\x7b'], if_neg hp, if_neg hp]
    exact ⟨rfl, rfl⟩

end Statements

-- A line with quoted texts is read as what it says, whatever the texts hold, except that a closing parenthesis in one
-- of them makes the whole line meaningless.
theorem ofText_call {header : String} (hh : header ∈ headers) {texts : List String} (ht : ∀ t ∈ texts, IsQuotable t) :
    (∀ kind ∈ plainKinds ++ technicalKinds, ∀ isExternal id, IsName id →
      Diagram.ofText (document header (writtenCall (elementKeyword kind isExternal) [id] texts)) =
        { kind := header
          elements := if EndsCall texts then [] else [describedElement kind isExternal id texts] }) ∧
    (∀ kind ∈ boundaryKinds, ∀ id, IsName id →
      Diagram.ofText (document header (writtenCall kind [id] texts ++ [' ', '\x7b'])) =
        { kind := header
          boundaries := if EndsCall texts then [] else [{ id, label := texts.headD id, kind }] }) ∧
    (∀ k ∈ relationshipKinds, ∀ source target, IsName source → IsName target →
      Diagram.ofText (document header (writtenCall k.1 [source, target] texts)) =
        { kind := header
          relationships := if EndsCall texts then [] else (describedRelationship k source target texts).toList }) := by
  refine ⟨fun kind hkind isExternal id hid => ?_, fun kind hkind id hid => ?_, fun k hk source target hs htarget => ?_⟩
  case refine_1 =>
    have hn : ∀ n ∈ [id], IsName n := by simpa using hid
    rw [(ofText_writtenCall hh (isKeyword_elementKeyword kind hkind isExternal) hn ht).left,
      element?_call hkind isExternal hid]
    split <;> rfl
  case refine_2 =>
    have hn : ∀ n ∈ [id], IsName n := by simpa using hid
    rw [(ofText_writtenCall hh (isKeyword_boundaryKinds kind hkind) hn ht).right, boundary?_call hkind hid]
    split <;> rfl
  case refine_3 =>
    have hn : ∀ n ∈ [source, target], IsName n := by simpa using ⟨hs, htarget⟩
    have helement : Statement.element? k.1 (writtenArguments [source, target] texts) = none := by
      simp [Statement.element?, elementKind?_relationshipKinds k hk]
    rw [(ofText_writtenCall hh (isKeyword_relationshipKinds k hk) hn ht).left, helement,
      relationship?_call hk hs htarget]
    cases describedRelationship k source target texts <;> split <;> rfl

theorem ofText_call_commas : IsName "db" ∧ (∀ t ∈ ["Store, main", "", "Keeps \x7ball\x7d orders"], IsQuotable t) ∧
    Diagram.ofText "C4Container\nContainerDb_Ext(db, \"Store, main\", \"\", \"Keeps \x7ball\x7d orders\")" =
      { kind := "C4Container"
        elements := [{
          kind := "ContainerDb", id := "db", label := "Store, main", description := some "Keeps \x7ball\x7d orders"
          isExternal := true }] } := by
  have hname : IsName "db" := ⟨by decide, List.all_eq_true.mp (by decide)⟩
  have htexts : ∀ t ∈ ["Store, main", "", "Keeps \x7ball\x7d orders"], IsQuotable t := by
    have hplain : ∀ t ∈ ["Store, main", "", "Keeps \x7ball\x7d orders"], '"' ∉ t.toList ∧ '\n' ∉ t.toList := by decide
    exact fun t ht => ⟨(hplain t ht).left, (hplain t ht).right⟩
  have hheader : "C4Container" ∈ headers := by decide
  exact ⟨hname, htexts, (ofText_call hheader htexts).left "ContainerDb" (by decide) true "db" hname⟩

-- The guest in parentheses is lost, and the person with it.
theorem ofText_parenthesis :
    Diagram.ofText "C4Context\nPerson(p, \"Reader (guest)\")" = { kind := "C4Context" } :=
  rfl

end LayeredDiagram.C4
