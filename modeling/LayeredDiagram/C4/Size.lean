import LayeredDiagram.C4.Model
import LayeredDiagram.Family.Fonts
/-!
Sizes of C4 elements in pixels, and the graph of a C4 diagram.
-/

namespace LayeredDiagram.C4

structure Config (α : Type) where
  padding : α
  boxPadX : α
  boxPadY : α
  personWidth : α
  personHeight : α
  minBoxWidth : α
  minBoxHeight : α
  lineHeight : α
  boundaryPadding : α
  boundaryHeaderHeight : α
  nodeSpacing : α
  layerSpacing : α
  descFontSize : α
  descFontWeight : Int
  techFontSize : α
  techFontWeight : Int
  fonts : Fonts α

variable {α : Type} [Scalar α]

namespace Config

def standard : Config α where
  padding := 40
  boxPadX := 16
  boxPadY := 12
  personWidth := 160
  personHeight := 180
  minBoxWidth := 160
  minBoxHeight := 80
  lineHeight := 18
  boundaryPadding := 30
  boundaryHeaderHeight := 28
  nodeSpacing := 60
  layerSpacing := 80
  descFontSize := 11
  descFontWeight := 400
  techFontSize := 10
  techFontWeight := 400
  fonts := Fonts.standard

def spacing (c : Config α) : Spacing α :=
  { Spacing.standard with
    node := c.nodeSpacing
    rank := c.layerSpacing
    groupPadding := c.boundaryPadding
    groupHeader := c.boundaryHeaderHeight
    emptyGroupWidth := c.minBoxWidth
    emptyGroupHeight := c.minBoxHeight }

def margin (c : Config α) : Margin α :=
  ⟨c.padding, c.padding⟩

end Config

namespace Element

def isPerson (e : Element) : Bool :=
  e.kind == "Person"

-- Estimated widths of the text lines of an element.
def lineWidths (c : Config α) (e : Element) : List α :=
  let label := Text.estimatedWidth e.label c.fonts.nodeLabelSize c.fonts.nodeLabelWeight
  let technology := (shown? e.technology).map fun t =>
    Text.estimatedWidth s!"[{t}]" c.techFontSize c.techFontWeight
  let description := (shown? e.description).map fun t =>
    Text.estimatedWidth t c.descFontSize c.descFontWeight
  label :: technology.toList ++ description.toList

-- Persons have a fixed size, other elements fit their widest line.
def size (c : Config α) (e : Element) : α × α :=
  if e.isPerson then (c.personWidth, c.personHeight)
  else
    let widths := e.lineWidths c
    let widest := (Scalar.largest? widths).getD 0
    (Scalar.larger c.minBoxWidth (widest + c.boxPadX * 2),
      Scalar.larger c.minBoxHeight ((widths.length : α) * c.lineHeight + c.boxPadY * 2))

def toNode (c : Config α) (e : Element) : SizedNode α :=
  let (width, height) := e.size c
  { id := e.id, width, height, label := some e.label, kind := some e.kind }

end Element

namespace Relationship

-- The edge of a relationship, with a label box of the given size.
def edge (r : Relationship) (width height : α) : SizedEdge α :=
  SizedEdge.labelled r.source r.target (shown? (some r.displayLabel)) width height

-- Relationships that point up or back keep their target above their source, those that point down
-- their source above their target.
def orderingEdge? (r : Relationship) : Option (SizedEdge α) :=
  match r.direction with
  | some .up | some .back => some (SizedEdge.ordering r.target r.source 1)
  | some .down => some (SizedEdge.ordering r.source r.target 1)
  | _ => none

def edges (r : Relationship) (width height : α) : List (SizedEdge α) :=
  r.edge width height :: r.orderingEdge?.toList

end Relationship

mutual

def Boundary.toGroup : Boundary → Group
  | ⟨id, label, kind, elements, children, _⟩ =>
    { id, label := some label, members := elements.map (·.id), children := Boundary.toGroups children,
      kind := some kind }

def Boundary.toGroups : List Boundary → List Group
  | [] => []
  | b :: bs => b.toGroup :: Boundary.toGroups bs

end

namespace Diagram

def groups (d : Diagram) : List Group :=
  Boundary.toGroups d.boundaries

def toGraph (c : Config α) (d : Diagram) : SizedGraph α where
  nodes := d.uniqueElements.map (·.toNode c)
  edges := d.knownRelationships.flatMap fun r =>
    r.edges (c.fonts.labelWidth r.displayLabel) c.fonts.labelHeight
  groups := d.groups
  spacing := c.spacing
  margin := c.margin

end Diagram

end LayeredDiagram.C4
