import LayeredDiagram.Family.Notice
/-!
C4 diagrams: elements such as persons, systems and containers, boundaries around them, and
relationships between them.
-/

namespace LayeredDiagram.C4

structure Element where
  -- The keyword without its marks, such as `Person` or `ContainerDb`.
  kind : String
  id : String
  label : String
  description : Option String := none
  technology : Option String := none
  isExternal : Bool := false
  -- The id of the innermost boundary around the element.
  parent : Option String := none
  deriving DecidableEq

structure Boundary where
  id : String
  label : String
  kind : String
  elements : List Element := []
  children : List Boundary := []
  -- The id of the boundary around this one.
  parent : Option String := none
  deriving Inhabited

-- Where the target of a relationship is to be placed.
inductive Direction where
  | up
  | down
  | left
  | right
  | back
  deriving DecidableEq

namespace Direction

def code : Direction → String
  | up => "U"
  | down => "D"
  | left => "L"
  | right => "R"
  | back => "Back"

end Direction

structure Relationship where
  source : String
  target : String
  label : String
  technology : Option String := none
  direction : Option Direction := none
  isBidirectional : Bool := false
  deriving DecidableEq

structure Diagram where
  -- The header keyword.
  kind : String
  title : Option String := none
  elements : List Element := []
  relationships : List Relationship := []
  boundaries : List Boundary := []

-- A text that is present and not empty.
def shown? (s : Option String) : Option String :=
  s.filter (· ≠ "")

namespace Relationship

-- The label, with the technology in brackets if there is one.
def displayLabel (r : Relationship) : String :=
  match shown? r.technology with
  | some t => s!"{r.label} [{t}]"
  | none => r.label

end Relationship

namespace Boundary

mutual

-- The boundary and all boundaries inside it, parents before children.
def walk : Boundary → List Boundary
  | ⟨id, label, kind, elements, children, parent⟩ =>
    ⟨id, label, kind, elements, children, parent⟩ :: walkAll children

-- All boundaries of a forest, parents before children.
def walkAll : List Boundary → List Boundary
  | [] => []
  | b :: bs => walk b ++ walkAll bs

end

end Boundary

namespace Diagram

-- The first element of each id.
def uniqueElements (d : Diagram) : List Element :=
  go [] d.elements
where
  go (seen : List String) : List Element → List Element
    | [] => []
    | e :: es => if seen.contains e.id then go seen es else e :: go (e.id :: seen) es

-- The elements whose id an earlier element has.
def repeatedElements (d : Diagram) : List Element :=
  go [] d.elements
where
  go (seen : List String) : List Element → List Element
    | [] => []
    | e :: es => if seen.contains e.id then e :: go seen es else go (e.id :: seen) es

def declares (d : Diagram) (id : String) : Bool :=
  d.elements.any (·.id == id)

def isKnown (d : Diagram) (r : Relationship) : Bool :=
  d.declares r.source && d.declares r.target

def knownRelationships (d : Diagram) : List Relationship :=
  d.relationships.filter d.isKnown

-- Remarks on everything that is not drawn.
def notices (d : Diagram) : List Notice :=
  (d.repeatedElements.map fun e => .duplicateElement e.id)
    ++ (d.relationships.filter fun r => !d.isKnown r).map fun r => .droppedRelationship r.source r.target

end Diagram

end LayeredDiagram.C4
