import LayeredDiagram.ArchiMate.Reading
import LayeredDiagram.Proofs.Layers
/-!
Blocks of layers. In which block a line stands, and what it declares there, follows from the lines alone, whatever has
been collected before. The layer groups of a text share out the ids that it declares: each id is a member of one group,
once, and this is the group of the layer in whose block the id is declared last.
-/

namespace LayeredDiagram.ArchiMate

open LayeredDiagram.Text (Line)

namespace Reading

variable {lines : List Line} {line : Line} {x : Declaration} {i : Nat}

-- What a line says if it stands in a block. Lines of layers and relationships are not read as elements.
def declared? (line : Line) : Option Element :=
  if (layer? line.content).isNone && (relationship? line.content).isNone then element? line.content else none

-- A line after which another block is open, or none.
def bounds (line : Line) : Bool :=
  (layer? line.content).isSome ||
    ((relationship? line.content).isNone && (element? line.content).isNone && !line.isIndented)

-- The layer whose block is open after some lines.
def openBlock? (lines : List Line) : Option Layer :=
  (lines.reverse.find? bounds).bind fun line => layer? line.content

-- What a line declares while a block is open, or none.
def declarationIn? (block : Option Layer) (line : Line) : Option Declaration :=
  block.bind fun layer => (declared? line).map fun element => { layer, element }

-- What the line at a position declares.
def declarationAt? (lines : List Line) (i : Nat) : Option Declaration :=
  lines[i]?.bind (declarationIn? (openBlock? (lines.take i)))

-- No later line declares the id again.
def IsLast (lines : List Line) (x : Declaration) : Prop :=
  ∃ i, declarationAt? lines i = some x ∧
    ∀ j y, i < j → declarationAt? lines j = some y → y.element.id ≠ x.element.id

theorem openBlock?_concat (lines : List Line) (line : Line) :
    openBlock? (lines ++ [line]) = if bounds line then layer? line.content else openBlock? lines := by
  rw [openBlock?, List.reverse_append, List.reverse_singleton, List.singleton_append, List.find?_cons, openBlock?]
  cases bounds line <;> rfl

theorem lt_length_of_declarationAt? (h : declarationAt? lines i = some x) : i < lines.length := by
  obtain ⟨_, hline, _⟩ := Option.bind_eq_some_iff.mp h
  exact (List.getElem?_eq_some_iff.mp hline).fst

theorem declarationAt?_concat_of_lt (line : Line) (h : i < lines.length) :
    declarationAt? (lines ++ [line]) i = declarationAt? lines i := by
  rw [declarationAt?, declarationAt?, List.getElem?_append_left h, List.take_append_of_le_length h.le]

theorem declarationAt?_length (lines : List Line) (line : Line) :
    declarationAt? (lines ++ [line]) lines.length = declarationIn? (openBlock? lines) line := by
  rw [declarationAt?, List.getElem?_concat_length, List.take_left, Option.bind_some]

theorem declarationAt?_concat_iff : declarationAt? (lines ++ [line]) i = some x ↔
    declarationAt? lines i = some x ∨ i = lines.length ∧ declarationIn? (openBlock? lines) line = some x := by
  constructor
  · intro h
    have hi := lt_length_of_declarationAt? h
    rw [List.length_append, List.length_singleton, Nat.lt_succ_iff_lt_or_eq] at hi
    rcases hi with hi | rfl
    · exact .inl (declarationAt?_concat_of_lt line hi ▸ h)
    · exact .inr ⟨rfl, declarationAt?_length lines line ▸ h⟩
  · rintro (h | ⟨rfl, h⟩)
    · rwa [declarationAt?_concat_of_lt line (lt_length_of_declarationAt? h)]
    · rwa [declarationAt?_length]

-- What a text declares, in order.
def declarationsOf (lines : List Line) : List Declaration :=
  (List.range lines.length).filterMap (declarationAt? lines)

theorem declarationsOf_concat (lines : List Line) (line : Line) :
    declarationsOf (lines ++ [line]) = declarationsOf lines ++ (declarationIn? (openBlock? lines) line).toList := by
  rw [declarationsOf, List.length_append, List.length_singleton, List.range_succ, List.filterMap_append]
  congr 1
  · exact List.filterMap_congr fun i hi => declarationAt?_concat_of_lt line (List.mem_range.mp hi)
  · rw [List.filterMap_cons, declarationAt?_length]
    cases declarationIn? (openBlock? lines) line <;> rfl

theorem isLast_concat : IsLast (lines ++ [line]) x ↔ declarationIn? (openBlock? lines) line = some x ∨
    (∀ y ∈ declarationIn? (openBlock? lines) line, y.element.id ≠ x.element.id) ∧ IsLast lines x := by
  constructor
  · rintro ⟨i, hi, hlast⟩
    rcases declarationAt?_concat_iff.mp hi with hx | ⟨_, hx⟩
    · have hnew (y) (hy : y ∈ declarationIn? (openBlock? lines) line) : y.element.id ≠ x.element.id :=
        hlast lines.length y (lt_length_of_declarationAt? hx) (declarationAt?_concat_iff.mpr (.inr ⟨rfl, hy⟩))
      exact .inr ⟨hnew, i, hx, fun j y hij hy => hlast j y hij (declarationAt?_concat_iff.mpr (.inl hy))⟩
    · exact .inl hx
  · rintro (hx | ⟨hnew, i, hx, hlast⟩)
    · refine ⟨lines.length, declarationAt?_concat_iff.mpr (.inr ⟨rfl, hx⟩), fun j y hj hy => ?_⟩
      rcases declarationAt?_concat_iff.mp hy with hy | ⟨rfl, _⟩
      · exact absurd (lt_length_of_declarationAt? hy) hj.not_gt
      · exact absurd hj (lt_irrefl _)
    · refine ⟨i, declarationAt?_concat_iff.mpr (.inl hx), fun j y hij hy => ?_⟩
      rcases declarationAt?_concat_iff.mp hy with hy | ⟨_, hy⟩
      · exact hlast j y hij hy
      · exact hnew y hy

-- By induction on the lines, the last one first.
theorem find?_reverse_declarationsOf (lines : List Line) (x : Declaration) :
    (declarationsOf lines).reverse.find? (·.element.id == x.element.id) = some x ↔ IsLast lines x := by
  induction lines using List.reverseRecOn
  case nil => simp [declarationsOf, IsLast, declarationAt?]
  case append_singleton lines line hi =>
    rw [isLast_concat, ← hi, declarationsOf_concat, List.reverse_append, List.find?_append, Option.or_eq_some_iff]
    cases declarationIn? (openBlock? lines) line
    case none => simp
    case some y =>
      have hid : y.element.id = x.element.id ∧ y = x ↔ y = x := and_iff_right_of_imp fun h => h ▸ rfl
      simp [hid]

end Reading

open Reading

namespace Draft

-- The block that is open after a line, and what the line declares, by the lines that bound blocks.
theorem addLine_eq (d : Draft) (line : Line) :
    (d.addLine line).current = (if bounds line then layer? line.content else d.current) ∧
    (d.addLine line).diagram.declarations = d.diagram.declarations ++ (declarationIn? d.current line).toList := by
  cases hl : layer? line.content
  case some => simp [addLine, bounds, declarationIn?, declared?, hl, openLayer]
  case none =>
    cases hr : relationship? line.content
    case some => simp [addLine, bounds, declarationIn?, declared?, hl, hr, addRelationship]
    case none =>
      cases hc : d.current
      case none => simp [addLine, declarationIn?, hl, hr, hc]
      case some =>
        cases he : element? line.content
        case some => simp [addLine, bounds, declarationIn?, declared?, hl, hr, hc, he, addElement]
        case none => cases hi : line.isIndented <;> simp [addLine, bounds, declarationIn?, declared?, hl, hr, hc, he, hi]

-- By induction on the lines, the last one first.
theorem foldl_addLine_eq (lines : List Line) : (lines.foldl addLine {}).current = openBlock? lines ∧
    (lines.foldl addLine {}).diagram.declarations = declarationsOf lines := by
  induction lines using List.reverseRecOn
  case nil => exact ⟨rfl, rfl⟩
  case append_singleton lines line hi =>
    obtain ⟨hcurrent, hdeclarations⟩ := addLine_eq (lines.foldl addLine {}) line
    rw [List.foldl_concat]
    constructor
    · rw [hcurrent, hi.left, openBlock?_concat]
    · rw [hdeclarations, hi.left, hi.right, declarationsOf_concat]

end Draft

namespace Diagram

variable {d : Diagram} {text : String} {x : Declaration}

theorem mem_elements_iff : x ∈ d.elements ↔ d.declaration? x.element.id = some x := by
  rw [elements, List.mem_filterMap]
  constructor
  · rintro ⟨id, _, hx⟩
    rwa [id_of_declaration? hx]
  · exact fun hx => ⟨x.element.id, mem_ids_iff.mpr ⟨x, hx⟩, hx⟩

theorem declarations_ofText (text : String) : (ofText text).declarations = declarationsOf (Text.bodyLines text) :=
  (Draft.foldl_addLine_eq _).right

theorem declaration?_ofText_iff :
    (ofText text).declaration? x.element.id = some x ↔ IsLast (Text.bodyLines text) x := by
  rw [declaration?, declarations_ofText, find?_reverse_declarationsOf]

theorem nodup_map_id_lasting (ds : List Declaration) : ((lasting ds).map (·.element.id)).Nodup := by
  induction ds
  case nil => exact List.nodup_nil
  case cons x ds hi =>
    rw [lasting]
    split
    case isTrue => exact hi
    case isFalse h =>
      rw [List.map_cons]
      refine hi.cons fun hx => h ?_
      obtain ⟨y, hy, hid⟩ := List.mem_map.mp hx
      have hfind := List.mem_of_find?_eq_some (mem_lasting_iff.mp hy)
      exact List.any_eq_true.mpr ⟨y, List.mem_reverse.mp hfind, by simp [hid]⟩

theorem nodup_layerIds (d : Diagram) (l : Layer) : (d.layerIds l).Nodup :=
  (nodup_map_id_lasting d.declarations).sublist (List.filter_sublist.map _)

-- The layer groups of a diagram share out the declared ids: each is a member of one group, once, of that of the layer
-- that it is declared in last.
structure SharesOut (d : Diagram) (lines : List Line) : Prop where
  members_nodup : (d.layerGroups.flatMap (·.members)).Nodup
  mem_members_iff : ∀ id, id ∈ d.layerGroups.flatMap (·.members) ↔ id ∈ d.elements.map (·.element.id)
  mem_iff : ∀ g ∈ d.layerGroups, ∀ id,
    id ∈ g.members ↔ ∃ x, IsLast lines x ∧ x.element.id = id ∧ g.kind = some x.layer.name
  kinds_nodup : (d.layerGroups.map (·.kind)).Nodup
  mem_elements_iff : ∀ x, x ∈ d.elements ↔ IsLast lines x

theorem flatMap_members_layerGroups (d : Diagram) :
    d.layerGroups.flatMap (·.members) = d.presentLayers.flatMap d.layerIds := by
  rw [layerGroups, List.flatMap_map]

theorem layerGroups_sharesOut (text : String) : (ofText text).SharesOut (Text.bodyLines text) := by
  have hlayers : (ofText text).presentLayers.Nodup := (by decide : Layer.all.Nodup).sublist List.filter_sublist
  constructor
  case members_nodup =>
    rw [flatMap_members_layerGroups, List.nodup_flatMap]
    refine ⟨fun l _ => nodup_layerIds _ l, hlayers.imp fun hne => ?_⟩
    exact List.disjoint_left.mpr fun id hl hu => hne (layer_eq hl hu)
  case mem_members_iff =>
    intro id
    rw [flatMap_members_layerGroups, map_id_elements, List.mem_flatMap]
    constructor
    · rintro ⟨l, _, hid⟩
      exact mem_ids_of_mem_layerIds hid
    · intro hid
      obtain ⟨x, hx⟩ := mem_ids_iff.mp hid
      exact ⟨x.layer, mem_presentLayers_of_declaration? hx, mem_layerIds_iff.mpr ⟨x, hx, rfl⟩⟩
  case mem_iff =>
    intro g hg id
    obtain ⟨u, _, rfl⟩ := List.mem_map.mp hg
    rw [mem_layerIds_iff]
    constructor
    · rintro ⟨x, hx, rfl⟩
      have hid := id_of_declaration? hx
      subst hid
      exact ⟨x, declaration?_ofText_iff.mp hx, rfl, rfl⟩
    · rintro ⟨x, hx, rfl, hkind⟩
      exact ⟨x, declaration?_ofText_iff.mpr hx, Layer.name_inj (Option.some.inj hkind).symm⟩
  case kinds_nodup =>
    rw [layerGroups, List.map_map]
    exact hlayers.map fun l u h => Layer.name_inj (Option.some.inj h)
  case mem_elements_iff =>
    intro x
    rw [mem_elements_iff, declaration?_ofText_iff]

-- An id that moves to another layer, and back into a block that is opened again.
example : (ofText "archimate-layered
business:
  actor a
  role b
application:
  component a
  component b
business:
  service b").layerGroups.map (·.members) = [["b"], ["a"]] := by
  decide +kernel

end Diagram

end LayeredDiagram.ArchiMate
