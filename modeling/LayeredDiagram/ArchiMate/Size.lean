import LayeredDiagram.ArchiMate.Model
import LayeredDiagram.Family.Fonts
/-!
Sizes of ArchiMate elements in pixels, and the graph of a layered view: one group for each layer, and
ordering edges that keep the layers below one another.
-/

namespace LayeredDiagram.ArchiMate

structure Config (α : Type) where
  padding : α
  minElementWidth : α
  elementHeight : α
  elementPadX : α
  layerPadding : α
  layerLabelHeight : α
  nodeSpacing : α
  layerSpacing : α
  typeIndicatorSize : α
  typeIndicatorWeight : Int
  -- Weight of the edges between layers; it exceeds that of any relationship.
  layerEdgeWeight : α
  fonts : Fonts α

variable {α : Type} [Scalar α]

namespace Config

def standard : Config α where
  padding := 40
  minElementWidth := 120
  elementHeight := 50
  elementPadX := 24
  layerPadding := 20
  layerLabelHeight := 24
  nodeSpacing := 40
  layerSpacing := 60
  typeIndicatorSize := 9
  typeIndicatorWeight := 400
  layerEdgeWeight := 10
  fonts := Fonts.standard

def spacing (c : Config α) : Spacing α :=
  { Spacing.standard with
    node := c.nodeSpacing
    rank := c.layerSpacing
    groupPadding := c.layerPadding
    groupHeader := c.layerLabelHeight
    emptyGroupWidth := c.minElementWidth
    emptyGroupHeight := c.elementHeight }

def margin (c : Config α) : Margin α :=
  ⟨c.padding, c.padding⟩

end Config

namespace Element

-- Room for the label, and for the type beside half of the label.
def width (c : Config α) (e : Element) : α :=
  let label := Text.estimatedWidth e.label c.fonts.nodeLabelSize c.fonts.nodeLabelWeight
  let type := Text.estimatedWidth e.type c.typeIndicatorSize c.typeIndicatorWeight
  Scalar.larger (Scalar.larger c.minElementWidth (label + c.elementPadX))
    (type + label / 2 + c.elementPadX)

def toNode (c : Config α) (e : Element) : SizedNode α :=
  { id := e.id, width := e.width c, height := c.elementHeight, label := some e.label,
    kind := some e.type }

end Element

namespace Diagram

-- An ordering edge from every element of a layer to every element of the next one.
def orderingEdges (weight : α) (d : Diagram) : List (SizedEdge α) :=
  (d.presentLayers.zip d.presentLayers.tail).flatMap fun (upper, lower) =>
    (d.layerIds upper).flatMap fun source =>
      (d.layerIds lower).map fun target => SizedEdge.ordering source target weight

-- One group for each layer with element lines.
def layerGroups (d : Diagram) : List Group :=
  d.presentLayers.map fun l =>
    { id := s!"layer:{l.name}", label := some l.label, members := d.layerIds l, kind := some l.name }

def toGraph (c : Config α) (d : Diagram) : SizedGraph α where
  nodes := d.elements.map (·.element.toNode c)
  edges := d.orderingEdges c.layerEdgeWeight ++ d.knownRelationships.map fun r =>
    SizedEdge.labelled r.source r.target r.label (c.fonts.labelWidth (r.label.getD ""))
      c.fonts.labelHeight
  groups := d.layerGroups
  spacing := c.spacing
  margin := c.margin
  uniformBands := true

end Diagram

end LayeredDiagram.ArchiMate
