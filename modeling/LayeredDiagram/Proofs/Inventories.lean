import LayeredDiagram.Proofs.Refusals
/-!
From texts to drawings. The inventory of a text is taken line by line, without diagrams and graphs: which ids are
mentioned, and which of them are linked. Nothing of it is lost on the way to a drawing and nothing is added. Every id is
drawn once, at its first mention, and so is every link between ids of the text, in the order of the text and in the
direction in which it is written.
-/

namespace LayeredDiagram

structure Link where
  source : String
  target : String
  label : Option String
  deriving DecidableEq

structure Inventory where
  -- In the order of the text, as often as they are mentioned.
  mentions : List String
  links : List Link

-- The links of which both ends are mentioned.
def Inventory.known (v : Inventory) : List Link :=
  v.links.filter fun l => l.source ∈ v.mentions ∧ l.target ∈ v.mentions

section Edges

variable {α : Type} [Scalar α]

def PlacedEdge.link (e : PlacedEdge α) : Link :=
  ⟨e.source, e.target, e.label⟩

def SizedEdge.link (e : SizedEdge α) : Link :=
  ⟨e.source, e.target, e.label⟩

-- What a graph has to consist of.
structure Inventory.Of (v : Inventory) (g : SizedGraph α) : Prop where
  nodes : g.nodes.map (·.id) = v.mentions.eraseDups
  edges : (g.edges.filter fun e => e.kind = .real).map (·.link) = v.known

namespace Inventory

variable {v : Inventory} {g : SizedGraph α} {p : PlacedGraph α} {sweeps : Nat}

theorem known_of_mentions_eq_nil (h : v.mentions = []) : v.known = [] := by
  simp [known, h]

theorem Of.layout (h : v.Of g) (hp : g.layout sweeps = .ok p) :
    p.nodes.map (·.id) = v.mentions.eraseDups ∧ p.edges.map (·.link) = v.known := by
  have ⟨hnodes, hedges⟩ := SizedGraph.layout_lists hp
  refine ⟨hnodes.trans h.nodes, ?_⟩
  by_cases hn : g.nodes = []
  case pos =>
    have hids : v.mentions.eraseDups = [] := h.nodes.symm.trans (by simp [hn])
    have hmentions : v.mentions = [] := List.eq_nil_iff_forall_not_mem.mpr fun id hid => by
      simpa [hids] using List.mem_eraseDups.mpr hid
    obtain rfl := SizedGraph.layout_of_nil hp hn
    exact (known_of_mentions_eq_nil hmentions).symm
  case neg =>
    have hlinks := congrArg (List.map fun x => Link.mk x.1 x.2.1 x.2.2) (hedges hn)
    rw [List.map_map, List.map_map] at hlinks
    exact hlinks.trans h.edges

end Inventory

end Edges

-- One more mention adds an id only if it is new.
theorem eraseDups_concat (l : List String) (a : String) :
    (l ++ [a]).eraseDups = if a ∈ l.eraseDups then l.eraseDups else l.eraseDups ++ [a] := by
  rw [List.eraseDups_append]
  split
  case isTrue h => simp [List.removeAll, List.mem_eraseDups.mp h]
  case isFalse h => simp [List.removeAll, mt List.mem_eraseDups.mpr h, List.eraseDups_cons]

namespace C4

def Relationship.link (r : Relationship) : Link :=
  ⟨r.source, r.target, shown? (some r.displayLabel)⟩

namespace Statement

def mentions : Statement → List String
  | element e => [e.id]
  | _ => []

def links : Statement → List Link
  | relationship r => [r.link]
  | _ => []

end Statement

-- What the statements of a text mention and link.
def inventory (text : String) : Inventory :=
  let statements := ((Text.meaningfulLines text).drop 1).filterMap Statement.ofLine?
  ⟨statements.flatMap (·.mentions), statements.flatMap (·.links)⟩

def Diagram.inventory (d : Diagram) : Inventory :=
  ⟨d.elements.map (·.id), d.relationships.map (·.link)⟩

namespace Draft

theorem mentions_add (d : Draft) (s : Statement) :
    (d.add s).diagram.inventory.mentions = d.diagram.inventory.mentions ++ s.mentions := by
  cases s
  case element e =>
    simp only [add, addElement]
    split <;> simp [Diagram.inventory, Statement.mentions]
  case close => simp [add, elements_close, Diagram.inventory, Statement.mentions]
  all_goals simp [add, Diagram.inventory, Statement.mentions]

theorem links_add (d : Draft) (s : Statement) :
    (d.add s).diagram.inventory.links = d.diagram.inventory.links ++ s.links := by
  cases s
  case element e =>
    simp only [add, addElement]
    split <;> simp [Diagram.inventory, Statement.links]
  case close => simp [add, relationships_close, Diagram.inventory, Statement.links]
  all_goals simp [add, Diagram.inventory, Statement.links]

theorem inventory_foldl (statements : List Statement) (d : Draft) :
    (statements.foldl add d).diagram.inventory =
      ⟨d.diagram.inventory.mentions ++ statements.flatMap (·.mentions),
        d.diagram.inventory.links ++ statements.flatMap (·.links)⟩ := by
  induction statements generalizing d
  case nil => simp
  case cons s statements hi =>
    simp only [List.foldl_cons, List.flatMap_cons, hi, mentions_add, links_add, List.append_assoc]

end Draft

namespace Diagram

variable {α : Type} [Scalar α]

theorem inventory_ofText (text : String) : (ofText text).inventory = C4.inventory text := by
  rw [ofText, ofStatements, inventory, (Draft.finish_lists _).left, (Draft.finish_lists _).right]
  exact (Draft.inventory_foldl _ _).trans (by simp [inventory, C4.inventory])

-- The first elements of all ids that have not been seen.
theorem map_id_go (seen : List String) (es : List Element) :
    (uniqueElements.go seen es).map (·.id) = ((es.map (·.id)).removeAll seen).eraseDups := by
  induction es generalizing seen
  case nil => simp [uniqueElements.go, List.removeAll]
  case cons e es hi =>
    rw [uniqueElements.go]
    split
    case isTrue h => simp [hi, List.removeAll, List.contains_iff_mem.mp h]
    case isFalse h =>
      have hnew : e.id ∉ seen := fun hm => h (List.contains_iff_mem.mpr hm)
      simp [hi, List.removeAll, hnew, List.eraseDups_cons, List.filter_filter, beq_eq_decide]

theorem map_id_uniqueElements (d : Diagram) : d.uniqueElements.map (·.id) = d.inventory.mentions.eraseDups := by
  simp [uniqueElements, map_id_go, List.removeAll, inventory]

theorem map_link_knownRelationships (d : Diagram) : d.knownRelationships.map (·.link) = d.inventory.known := by
  rw [Inventory.known, inventory, List.filter_map]
  refine congrArg _ (List.filter_congr fun r _ => Bool.eq_iff_iff.mpr ?_)
  simp [isKnown, declares, Relationship.link]

-- The graph consists of what the diagram declares, whatever edges are added to place it.
theorem inventory_of (d : Diagram) (config : Config α) : d.inventory.Of (d.toGraph config) where
  nodes := (map_id_nodes d config).trans d.map_id_uniqueElements
  edges := by
    rw [← map_link_knownRelationships]
    simp only [toGraph, List.filter_flatMap, Relationship.filter_real_edges, ← List.map_eq_flatMap, List.map_map]
    rfl

end Diagram

end C4

namespace ArchiMate

open Reading

def Relationship.link (r : Relationship) : Link :=
  ⟨r.source, r.target, r.label⟩

-- The elements of lines, which count inside layer blocks only. The flag says whether one is open.
def elementsIn : Bool → List Text.Line → List Element
  | _, [] => []
  | isOpen, line :: lines =>
    if (layer? line.content).isSome then elementsIn true lines
    else if (relationship? line.content).isSome then elementsIn isOpen lines
    else if isOpen then
      match element? line.content with
      | some e => e :: elementsIn true lines
      | none => elementsIn line.isIndented lines
    else elementsIn false lines

-- The elements of layers, and whatever a line relates, inside a layer or outside.
def inventory (text : String) : Inventory :=
  let lines := Text.bodyLines text
  ⟨(elementsIn false lines).map (·.id), lines.filterMap fun line => (relationship? line.content).map (·.link)⟩

def Diagram.inventory (d : Diagram) : Inventory :=
  ⟨d.declarations.map (·.element.id), d.relationships.map (·.link)⟩

-- A colon is no arrow.
theorem relationship?_of_layer? {line : List Char} {l : Layer} (h : layer? line = some l) :
    relationship? line = none := by
  unfold layer? at h
  unfold relationship?
  cases hw : Text.word? line
  case none => rfl
  case some word =>
    simp only [hw, Option.bind_eq_bind, Option.bind_some] at h ⊢
    split at h
    case isTrue hr => rw [hr]; rfl
    case isFalse => cases h

namespace Draft

theorem inventory_foldl (lines : List Text.Line) (d : Draft) :
    (lines.foldl addLine d).diagram.inventory =
      ⟨d.diagram.inventory.mentions ++ (elementsIn d.current.isSome lines).map (·.id),
        d.diagram.inventory.links ++ lines.filterMap fun line => (relationship? line.content).map (·.link)⟩ := by
  induction lines generalizing d
  case nil => simp [elementsIn]
  case cons line lines hi =>
    rw [List.foldl_cons, hi, elementsIn, List.filterMap_cons, addLine]
    cases hl : layer? line.content
    case some l => simp [relationship?_of_layer? hl, openLayer, Diagram.inventory]
    case none =>
      cases hr : relationship? line.content
      case some r => simp [addRelationship, Diagram.inventory]
      case none =>
        cases hc : d.current
        case none => simp [hc]
        case some l =>
          cases he : element? line.content
          case some e => simp [addElement, Diagram.inventory, hc]
          case none => cases hi : line.isIndented <;> simp [hc]

end Draft

namespace Diagram

variable {α : Type} [Scalar α]

theorem inventory_ofText (text : String) : (ofText text).inventory = ArchiMate.inventory text :=
  (Draft.inventory_foldl _ _).trans (by simp [inventory, ArchiMate.inventory])

theorem map_link_knownRelationships (d : Diagram) : d.knownRelationships.map (·.link) = d.inventory.known := by
  rw [Inventory.known, inventory, List.filter_map]
  refine congrArg _ (List.filter_congr fun r _ => Bool.eq_iff_iff.mpr ?_)
  simp [isKnown, declares, Relationship.link]

theorem inventory_of (d : Diagram) (config : Config α) : d.inventory.Of (d.toGraph config) where
  nodes := map_id_nodes d config
  edges := by
    rw [← map_link_knownRelationships, toGraph, List.filter_append, filter_real_orderingEdges, List.nil_append,
      SizedEdge.filter_real_map fun _ => rfl, List.map_map]
    rfl

end Diagram

end ArchiMate

namespace ClassDiagram

def Relationship.link (r : Relationship) : Link :=
  ⟨r.source, r.target, r.label⟩

-- The id of a written name.
def idOf (written : List Char) : String :=
  String.ofList (splitGeneric written).1

namespace Statement

def mentions : Statement → List String
  | openClass written | declaration written | stereotype written _ | member written _ => [idOf written]
  | relationship source target _ => [idOf source, idOf target]
  | _ => []

def links : Statement → List Link
  | relationship source target r => [⟨idOf source, idOf target, r.label⟩]
  | _ => []

def opensClass : Statement → Bool
  | openClass _ => true
  | _ => false

end Statement

-- The statements of lines; inside a class block there are none. The flag says whether one is open.
def statementsIn : Bool → List Text.Line → List Statement
  | _, [] => []
  | true, line :: lines => statementsIn (line.content ≠ ['\x7d']) lines
  | false, line :: lines =>
    match Statement.ofLine? line.content with
    | some s => s :: statementsIn s.opensClass lines
    | none => statementsIn false lines

-- What the statements of a text mention and link.
def inventory (text : String) : Inventory :=
  let statements := statementsIn false (Text.bodyLines text)
  ⟨statements.flatMap (·.mentions), statements.flatMap (·.links)⟩

-- The classes of a diagram are those that an inventory mentions, and its relationships are the links.
structure Diagram.Covers (d : Diagram) (v : Inventory) : Prop where
  ids_eq : d.ids = v.mentions.eraseDups
  links_eq : d.relationships.map (·.link) = v.links

namespace Diagram.Covers

variable {d : Diagram} {v : Inventory} {f : Class → Class} (h : d.Covers v)
include h

theorem modify (id : String) (hf : ∀ c, (f c).id = c.id) : (d.modify id f).Covers v where
  ids_eq := (ids_modify hf).trans h.ids_eq
  links_eq := h.links_eq

theorem addNamespace (name : String) : (d.addNamespace name).Covers v := by
  rw [Diagram.addNamespace]
  split
  case isTrue => exact h
  case isFalse => exact ⟨h.ids_eq, h.links_eq⟩

theorem declare (id label : String) : (d.declare id label).Covers { v with mentions := v.mentions ++ [id] } where
  ids_eq := by rw [ids_declare, h.ids_eq, eraseDups_concat]
  links_eq := by
    simp only [Diagram.declare]
    split
    case h_1 => exact h.links_eq
    case h_2 => split <;> exact h.links_eq

theorem enter (id name : String) : (d.enter id name).Covers v where
  ids_eq := ids_enter.trans h.ids_eq
  links_eq := by
    simp only [Diagram.enter]
    split <;> exact h.links_eq

theorem ensureClass (written : List Char) (inside : Option String) :
    (d.ensureClass written inside).1.Covers { v with mentions := v.mentions ++ [idOf written] } := by
  cases inside
  case none => exact h.declare _ _
  case some name => exact (h.declare _ _).enter _ _

end Diagram.Covers

theorem Diagram.snd_ensureClass (d : Diagram) (written : List Char) (inside : Option String) :
    (d.ensureClass written inside).2 = idOf written := by
  cases inside <;> rfl

namespace Draft

variable {d : Draft} {v : Inventory}

-- A statement declares the classes that it mentions, and adds its relationship.
theorem covers_add (h : d.diagram.Covers v) (s : Statement) :
    (d.add s).diagram.Covers ⟨v.mentions ++ s.mentions, v.links ++ s.links⟩ := by
  cases s <;> simp only [Statement.mentions, Statement.links, List.append_nil]
  case close => exact h
  case openNamespace name => exact h.addNamespace name
  case openClass written => exact h.ensureClass written d.inNamespace
  case declaration written => exact h.ensureClass written d.inNamespace
  case stereotype written text => exact (h.ensureClass written none).modify _ fun _ => rfl
  case relationship source target r =>
    have hboth := (h.ensureClass source none).ensureClass target none
    constructor
    case ids_eq => exact hboth.ids_eq.trans (by simp)
    case links_eq => simpa [add, Diagram.snd_ensureClass, Relationship.link] using hboth.links_eq
  case member written m => exact (h.ensureClass written none).modify _ fun c => id_addMember c m

theorem covers_addToClass (h : d.diagram.Covers v) (id : String) (line : List Char) :
    (d.addToClass id line).diagram.Covers v := by
  obtain ⟨f, hid, _, heq⟩ := exists_diagram_addToClass d id line
  exact heq ▸ h.modify id hid

-- Only a brace ends a class block.
theorem inClass_addToClass {id : String} (h : d.inClass = some id) (line : List Char) :
    (d.addToClass id line).inClass.isSome = decide (line ≠ ['\x7d']) := by
  simp only [addToClass]
  split
  case isTrue hl => simp [hl]
  case isFalse hl => split <;> simp [h, hl]

theorem inClass_add (h : d.inClass = none) (s : Statement) : (d.add s).inClass.isSome = s.opensClass := by
  cases s <;> simp [add, h, Statement.opensClass]

theorem covers_foldl (lines : List Text.Line) (h : d.diagram.Covers v) :
    (lines.foldl addLine d).diagram.Covers
      ⟨v.mentions ++ (statementsIn d.inClass.isSome lines).flatMap (·.mentions),
        v.links ++ (statementsIn d.inClass.isSome lines).flatMap (·.links)⟩ := by
  induction lines generalizing d v
  case nil => simpa [statementsIn] using h
  case cons line lines hi =>
    rw [List.foldl_cons, addLine]
    cases hc : d.inClass
    case some id =>
      have hlines := hi (covers_addToClass h id line.content)
      rw [inClass_addToClass hc] at hlines
      simpa [statementsIn] using hlines
    case none =>
      cases hs : Statement.ofLine? line.content
      case some s =>
        have hlines := hi (covers_add h s)
        rw [inClass_add hc] at hlines
        simpa [statementsIn, hs] using hlines
      case none =>
        have hlines := hi (d := d.skip line.content) ⟨h.ids_eq, h.links_eq⟩
        simpa [statementsIn, hs, skip, hc] using hlines

end Draft

namespace Diagram

variable {α : Type} [Scalar α] {d : Diagram} {v : Inventory}

theorem covers_ofText (text : String) : (ofText text).Covers (ClassDiagram.inventory text) := by
  have hlines := Draft.covers_foldl (d := {}) (v := ⟨[], []⟩) (Text.bodyLines text) ⟨rfl, rfl⟩
  rwa [List.nil_append, List.nil_append] at hlines

-- Both ends of a relationship are mentioned with it.
theorem Covers.known_eq (h : d.Covers v) (hd : d.Consistent) : v.known = v.links := by
  refine List.filter_eq_self.mpr fun l hl => ?_
  rw [← h.links_eq] at hl
  obtain ⟨r, hr, rfl⟩ := List.mem_map.mp hl
  exact decide_eq_true (by simpa [h.ids_eq, Relationship.link] using hd.ends_mem r hr)

theorem Covers.inventory_of (h : d.Covers v) (hd : d.Consistent) (config : Config α) :
    v.Of (d.toGraph config) where
  nodes := (map_id_nodes d config).trans h.ids_eq
  edges := by
    rw [h.known_eq hd, ← h.links_eq, toGraph, SizedEdge.filter_real_map fun _ => rfl, List.map_map]
    rfl

end Diagram

end ClassDiagram

-- What a text in a given family mentions and links.
def Inventory.ofTextIn (f : Family) (text : String) : Inventory :=
  match f with
  | .c4 => C4.inventory text
  | .archimate => ArchiMate.inventory text
  | .classDiagram => ClassDiagram.inventory text

namespace Diagram

variable {α : Type} [Scalar α] {d : Diagram} {p : PlacedGraph α} {text : String}

theorem inventory_of (f : Family) (text : String) (config : Config α) :
    (Inventory.ofTextIn f text).Of ((ofTextIn f text).toGraph config) := by
  cases f
  case c4 =>
    have h := (C4.Diagram.ofText text).inventory_of config.c4
    rwa [C4.Diagram.inventory_ofText] at h
  case archimate =>
    have h := (ArchiMate.Diagram.ofText text).inventory_of config.archimate
    rwa [ArchiMate.Diagram.inventory_ofText] at h
  case classDiagram =>
    have h := ClassDiagram.Diagram.covers_ofText text
    exact h.inventory_of (ClassDiagram.Diagram.consistent_ofText text) config.classDiagram

-- A text is drawn without loss: every id that it mentions, once, and every link between such ids.
theorem layout_inventory {config : Config α} {sweeps : Nat} (hd : ofText text = .ok d)
    (hp : d.layout config sweeps = .ok p) :
    p.nodes.map (·.id) = (Inventory.ofTextIn d.family text).mentions.eraseDups ∧
    p.edges.map (·.link) = (Inventory.ofTextIn d.family text).known := by
  cases hf : Family.detect text
  case error => simp [ofText, hf, Except.map] at hd
  case ok f =>
    obtain rfl : ofTextIn f text = d := by simpa [ofText, hf, Except.map] using hd
    have hfamily : (ofTextIn f text).family = f := by cases f <;> rfl
    rw [hfamily]
    exact (inventory_of f text config).layout hp

-- A reader declared twice, a cycle of which one edge is turned and placed by another one, and a stock that nothing
-- declares.
def answering : String :=
  "C4Context
  Person(a, \"Reader\")
  Rel(a, b, \"asks\")
  Rel_U(b, a, \"answers\")
  Rel(b, c, \"looks up\")
  System(b, \"Shop\")
  Person(a, \"Again\")"

set_option maxRecDepth 2000 in
theorem layout_inventory_answering : ∃ d p, ofText answering = .ok d ∧
    d.layout (Config.standard : Config Rat) 4 = .ok p ∧ p.nodes.map (·.id) = ["a", "b"] ∧
    p.edges.map (·.link) = [⟨"a", "b", some "asks"⟩, ⟨"b", "a", some "answers"⟩] := by
  have hread : C4.Diagram.ofText answering = {
      kind := "C4Context"
      elements := [{ kind := "Person", id := "a", label := "Reader" }, { kind := "System", id := "b", label := "Shop" },
        { kind := "Person", id := "a", label := "Again" }]
      relationships := [{ source := "a", target := "b", label := "asks" },
        { source := "b", target := "a", label := "answers", direction := some .up },
        { source := "b", target := "c", label := "looks up" }] } := rfl
  have hv : Inventory.ofTextIn .c4 answering = (C4.Diagram.ofText answering).inventory :=
    (C4.Diagram.inventory_ofText answering).symm
  have hd : ofText answering = .ok (.c4 (C4.Diagram.ofText answering)) := rfl
  have hr : ¬(Diagram.c4 (C4.Diagram.ofText answering)).RepeatsBoundary := by
    rintro ⟨c, hc, _, hdup⟩
    obtain rfl := Diagram.c4.inj hc
    rw [hread] at hdup
    exact hdup List.nodup_nil
  obtain ⟨p, hp⟩ := exists_layout_of_text (f := .c4) (Config.standard : Config Rat) 4 hr
  obtain ⟨hnodes, hedges⟩ := layout_inventory hd hp
  rw [Diagram.family, hv, hread] at hnodes hedges
  exact ⟨_, p, hd, hp, hnodes.trans (by decide), hedges.trans (by decide)⟩

end Diagram

end LayeredDiagram
