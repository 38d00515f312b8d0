import LayeredDiagram.Family.Notice
import LayeredDiagram.Text.UpperCase
/-!
ArchiMate layered views: elements in layers, and typed relationships between them.
-/

namespace LayeredDiagram.ArchiMate

inductive Layer where
  | strategy
  | motivation
  | business
  | application
  | technology
  | physical
  | implementation
  deriving DecidableEq

namespace Layer

-- All layers from top to bottom.
def all : List Layer :=
  [strategy, motivation, business, application, technology, physical, implementation]

def name : Layer → String
  | strategy => "strategy"
  | motivation => "motivation"
  | business => "business"
  | application => "application"
  | technology => "technology"
  | physical => "physical"
  | implementation => "implementation"

def label : Layer → String
  | strategy => "Strategy"
  | motivation => "Motivation"
  | business => "Business"
  | application => "Application"
  | technology => "Technology"
  | physical => "Physical"
  | implementation => "Implementation & Migration"

def ofName? (s : String) : Option Layer :=
  all.find? (·.name == s)

-- The element types that belong to a layer. They are accepted in every layer.
def elementTypes : Layer → List String
  | business => [
    "actor", "role", "process", "function", "service", "object", "event", "interface",
    "collaboration", "interaction", "contract", "representation", "product"]
  | application => [
    "component", "collaboration", "interface", "function", "interaction", "process", "event",
    "service", "dataObject"]
  | technology => [
    "node", "device", "systemSoftware", "artifact", "communicationNetwork", "path", "interface",
    "function", "process", "interaction", "event", "service"]
  | strategy => ["resource", "capability", "valueStream", "courseOfAction"]
  | motivation => [
    "stakeholder", "driver", "assessment", "goal", "outcome", "principle", "requirement",
    "constraint", "meaning", "value"]
  | physical => ["equipment", "facility", "distributionNetwork", "material"]
  | implementation => ["workPackage", "deliverable", "implementationEvent", "plateau", "gap"]

end Layer

def isElementType (s : String) : Bool :=
  Layer.all.any fun l => l.elementTypes.contains s

def relationshipTypes : List String := [
  "composition", "aggregation", "assignment", "realization", "serving", "access", "influence",
  "triggering", "flow", "specialization", "association"]

structure Element where
  id : String
  label : String
  type : String
  deriving DecidableEq

-- An element line inside a layer block.
structure Declaration where
  layer : Layer
  element : Element
  deriving DecidableEq

structure Relationship where
  source : String
  target : String
  type : String := "association"
  label : Option String := none
  deriving DecidableEq

structure Diagram where
  -- Layers by the first block of each.
  layers : List Layer := []
  -- All element lines in the order of the text.
  declarations : List Declaration := []
  relationships : List Relationship := []

namespace Diagram

-- The last declaration of an id.
def declaration? (d : Diagram) (id : String) : Option Declaration :=
  d.declarations.reverse.find? (·.element.id == id)

-- Ids in the order of their first declarations.
def ids (d : Diagram) : List String :=
  (d.declarations.map (·.element.id)).eraseDups

-- What is drawn: for each id its last declaration.
def elements (d : Diagram) : List Declaration :=
  d.ids.filterMap d.declaration?

def inLayer (d : Diagram) (l : Layer) : List Element :=
  (d.declarations.filter (·.layer = l)).map (·.element)

-- The layers with element lines, from top to bottom.
def presentLayers (d : Diagram) : List Layer :=
  Layer.all.filter fun l => d.declarations.any (·.layer = l)

-- The declarations of a list that no later one of the same id replaces.
def lasting : List Declaration → List Declaration
  | [] => []
  | x :: rest =>
    if rest.any (·.element.id == x.element.id) then lasting rest else x :: lasting rest

def layerIds (d : Diagram) (l : Layer) : List String :=
  ((lasting d.declarations).filter (·.layer = l)).map (·.element.id)

def declares (d : Diagram) (id : String) : Bool :=
  d.declarations.any (·.element.id == id)

def isKnown (d : Diagram) (r : Relationship) : Bool :=
  d.declares r.source && d.declares r.target

def knownRelationships (d : Diagram) : List Relationship :=
  d.relationships.filter d.isKnown

-- Remarks on the relationships that are not drawn.
def notices (d : Diagram) : List Notice :=
  (d.relationships.filter fun r => !d.isKnown r).map fun r => .droppedTyped r.type r.source r.target

end Diagram

-- Puts a space between a small and a capital letter of the Latin alphabet.
def spaceCapitals : List Char → List Char
  | a :: b :: rest =>
    if a.isLower && b.isUpper then a :: ' ' :: spaceCapitals (b :: rest)
    else a :: spaceCapitals (b :: rest)
  | s => s

-- A type name as words with a capital at the start: `dataObject` is shown as `Data Object`.
def displayName (type : String) : String :=
  match spaceCapitals type.toList with
  | c :: rest => String.ofList (Text.upper c ++ rest)
  | [] => ""

end LayeredDiagram.ArchiMate
