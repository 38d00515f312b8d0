import LayeredDiagram.ClassDiagram.Model
import LayeredDiagram.Family.Fonts
/-!
Sizes of class boxes in pixels, and the graph of a class diagram.
-/

namespace LayeredDiagram.ClassDiagram

structure Config (α : Type) where
  padding : α
  boxPadX : α
  minWidth : α
  headerHeight : α
  stereotypeHeight : α
  memberRowHeight : α
  compartmentPadY : α
  memberFontSize : α
  nameFontSize : α
  nameFontWeight : Int
  stereotypeFontSize : α
  stereotypeFontWeight : Int
  nodeSpacing : α
  layerSpacing : α
  namespacePadding : α
  namespaceHeaderHeight : α
  fonts : Fonts α

-- Heights of the parts of a class box.
structure Compartments (α : Type) where
  header : α
  attributes : α
  methods : α

variable {α : Type} [Scalar α]

namespace Config

def standard : Config α where
  padding := 40
  boxPadX := 8
  minWidth := 120
  headerHeight := 32
  stereotypeHeight := 14
  memberRowHeight := 20
  compartmentPadY := 8
  memberFontSize := 11
  nameFontSize := 13
  nameFontWeight := 700
  stereotypeFontSize := 10
  stereotypeFontWeight := 500
  nodeSpacing := 40
  layerSpacing := 60
  namespacePadding := 20
  namespaceHeaderHeight := 24
  fonts := Fonts.standard

def spacing (c : Config α) : Spacing α :=
  { Spacing.standard with
    node := c.nodeSpacing
    rank := c.layerSpacing
    groupPadding := c.namespacePadding
    groupHeader := c.namespaceHeaderHeight
    emptyGroupWidth := c.minWidth
    emptyGroupHeight := c.headerHeight }

def margin (c : Config α) : Margin α :=
  ⟨c.padding, c.padding⟩

def rows (c : Config α) (count : Nat) : α :=
  (count : α) * c.memberRowHeight + c.compartmentPadY

end Config

namespace Class

-- The stereotype, unless it is empty.
def shownStereotype? (n : Class) : Option String :=
  n.stereotype.filter (· ≠ "")

def compartments (c : Config α) (n : Class) : Compartments α where
  header := if n.shownStereotype?.isSome then c.headerHeight + c.stereotypeHeight else c.headerHeight
  attributes := c.rows n.attributes.length
  methods := c.rows n.methods.length

-- The widest of the name, the stereotype and the members.
def width (c : Config α) (n : Class) : α :=
  let name := Text.estimatedWidth n.label c.nameFontSize c.nameFontWeight
  let stereotype := n.shownStereotype?.map fun t =>
    Text.estimatedWidth s!"<<{t}>>" c.stereotypeFontSize c.stereotypeFontWeight
  let members := (n.attributes ++ n.methods).map fun m =>
    Text.estimatedMonoWidth m.displayText c.memberFontSize
  let widest := (stereotype.toList ++ members).foldl Scalar.larger name
  Scalar.larger c.minWidth (widest + c.boxPadX * 2)

def toNode (c : Config α) (n : Class) : SizedNode α :=
  let parts := n.compartments c
  { id := n.id, width := n.width c, height := parts.header + parts.attributes + parts.methods,
    label := some n.label, kind := some "class" }

end Class

namespace Diagram

def namespaceGroups (d : Diagram) : List Group :=
  d.namespaces.map fun n =>
    { id := s!"namespace:{n.name}", label := some n.name, members := n.classIds, kind := some "namespace" }

def toGraph (c : Config α) (d : Diagram) : SizedGraph α where
  nodes := d.classes.map (·.toNode c)
  edges := d.relationships.map fun r =>
    SizedEdge.labelled r.source r.target r.label (c.fonts.labelWidth (r.label.getD ""))
      c.fonts.labelHeight
  groups := d.namespaceGroups
  spacing := c.spacing
  margin := c.margin

end Diagram

end LayeredDiagram.ClassDiagram
