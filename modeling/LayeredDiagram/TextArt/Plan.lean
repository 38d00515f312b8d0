import LayeredDiagram.Canvas.Box
import LayeredDiagram.Canvas.Line
import LayeredDiagram.Family.Diagram
import LayeredDiagram.TextArt.Config
/-!
What text art shows of a diagram: the text of each box, the look of each connector, and the graph with
sizes in cells.
-/

namespace LayeredDiagram.TextArt

structure Figure where
  id : String
  sections : Sections
  -- Whether a person stands on the box.
  isPerson : Bool := false

structure Connector where
  isDashed : Bool := false
  start : Option Marker := none
  stop : Option Marker := none
  -- Texts beside the two ends; empty ones are not shown.
  startNote : Option String := none
  stopNote : Option String := none

structure Plan (α : Type) where
  graph : SizedGraph α
  -- The content of the nodes of the graph, in their order.
  figures : List Figure
  -- The look of the real edges of the graph, in their order.
  connectors : List Connector
  hasDashedGroups : Bool

-- Rows that a person takes above its box.
def personRows : Nat := 3

-- Blank columns on either side of the text in a box.
def textPadding : Int := 1

variable {α : Type} [Scalar α]

namespace Figure

def width (f : Figure) : Int :=
  f.sections.boxWidth textPadding

def height (f : Figure) : Int :=
  f.sections.boxHeight + (if f.isPerson then personRows else 0)

def node (f : Figure) : SizedNode α :=
  { id := f.id, width := (f.width : α), height := (f.height : α) }

end Figure

-- Columns kept free for a label, with a blank on either side.
def labelWidth (label : String) : α :=
  ((Text.displayWidth label + 2 : Nat) : α)

-- A drawn edge with a label of one row.
def labelledEdge (source target : String) (label : Option String) : SizedEdge α :=
  SizedEdge.labelled source target label (labelWidth (label.getD "")) 1

-- A graph with the gaps of text art.
def graphOf (c : Config α) (figures : List Figure) (edges : List (SizedEdge α)) (groups : List Group)
    (uniformBands : Bool) : SizedGraph α where
  nodes := figures.map Figure.node
  edges
  groups
  spacing := c.spacing
  margin := c.canvasMargin
  uniformBands

section C4

-- The label, and below it the technology and the description.
def elementSections (e : C4.Element) : Sections :=
  let technology := (C4.shown? e.technology).map fun t => s!"[{t}]"
  let details := technology.toList ++ (C4.shown? e.description).toList
  if details.isEmpty then [[e.label]] else [[e.label], details]

def elementFigure (e : C4.Element) : Figure :=
  { id := e.id, sections := elementSections e, isPerson := e.isPerson }

-- An arrow, with a second head for both directions.
def c4Connector (r : C4.Relationship) : Connector :=
  { start := if r.isBidirectional then some .arrow else none, stop := some .arrow }

def ofC4 (c : Config α) (d : C4.Diagram) : Plan α :=
  let figures := d.uniqueElements.map elementFigure
  let edges := d.knownRelationships.flatMap fun r => r.edges (labelWidth r.displayLabel) 1
  { graph := graphOf c figures edges d.groups false
    figures
    connectors := d.knownRelationships.map c4Connector
    hasDashedGroups := true }

end C4

section ArchiMate

-- The type in double angle brackets above the label.
def archimateFigure (e : ArchiMate.Element) : Figure :=
  { id := e.id, sections := [["<<" ++ ArchiMate.displayName e.type ++ ">>", e.label]] }

def archimateConnector (r : ArchiMate.Relationship) : Connector :=
  match r.type with
  | "composition" => { start := some (.fixed .diamond) }
  | "aggregation" => { start := some (.fixed .openDiamond) }
  | "assignment" => { start := some (.fixed .circle), stop := some .arrow }
  | "realization" => { isDashed := true, stop := some .openArrow }
  | "serving" => { stop := some .openArrow }
  | "access" => { isDashed := true, stop := some .arrow }
  | "influence" => { isDashed := true, stop := some .openArrow }
  | "triggering" => { stop := some .arrow }
  | "flow" => { isDashed := true, stop := some .arrow }
  | "specialization" => { stop := some .openArrow }
  | _ => {}

def ofArchiMate (c : Config α) (d : ArchiMate.Diagram) : Plan α :=
  let figures := d.elements.map fun e => archimateFigure e.element
  let weight := (ArchiMate.Config.standard : ArchiMate.Config α).layerEdgeWeight
  let edges := d.orderingEdges weight ++ d.knownRelationships.map fun r =>
    labelledEdge r.source r.target r.label
  { graph := graphOf c figures edges d.layerGroups true
    figures
    connectors := d.knownRelationships.map archimateConnector
    hasDashedGroups := false }

end ArchiMate

section ClassDiagram

-- The name under its stereotype, the attributes, and the methods.
def classFigure (n : ClassDiagram.Class) : Figure :=
  let stereotype := n.shownStereotype?.map fun t => s!"<<{t}>>"
  let rows (members : List ClassDiagram.Member) : List String := members.map (·.displayText)
  { id := n.id, sections := [stereotype.toList ++ [n.label], rows n.attributes, rows n.methods] }

def classMarker? (r : ClassDiagram.Relationship) : Option Marker :=
  match r.type with
  | "inheritance" | "realization" => some .openArrow
  | "composition" => some (.fixed .diamond)
  | "aggregation" => some (.fixed .openDiamond)
  | "association" | "dependency" => some .arrow
  | _ => none

-- Dependencies and realizations are dashed; the marker stands at the end that carries it.
def classConnector (r : ClassDiagram.Relationship) : Connector :=
  { isDashed := r.type == "dependency" || r.type == "realization"
    start := if r.markerAt = .source then classMarker? r else none
    stop := if r.markerAt = .source then none else classMarker? r
    startNote := r.sourceCardinality
    stopNote := r.targetCardinality }

def ofClassDiagram (c : Config α) (d : ClassDiagram.Diagram) : Plan α :=
  let figures := d.classes.map classFigure
  let edges := d.relationships.map fun r => labelledEdge r.source r.target r.label
  { graph := graphOf c figures edges d.namespaceGroups false
    figures
    connectors := d.relationships.map classConnector
    hasDashedGroups := true }

end ClassDiagram

def planOf (c : Config α) : Diagram → Plan α
  | .c4 d => ofC4 c d
  | .archimate d => ofArchiMate c d
  | .classDiagram d => ofClassDiagram c d

end LayeredDiagram.TextArt
