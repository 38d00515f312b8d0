import LayeredDiagram.Family.Fonts
import LayeredDiagram.Graph.Placed
import LayeredDiagram.Svg.Marker
/-!
What all pictures share: colours, fonts, the title, connectors, and labels beside connectors.
-/

namespace LayeredDiagram.Svg

-- The looks of a picture.
structure Paint where
  colors : DrawingColors
  fontFamily : Option String
  -- Whether the background is left out.
  isTransparent : Bool
  fonts : Fonts Quantity := Fonts.standard

-- The fonts of texts, where a caller names none.
def defaultFamily : String :=
  "Inter, -apple-system, BlinkMacSystemFont, sans-serif"

-- The fonts of members of classes.
def monospaceFamily : String :=
  "'JetBrains Mono', 'SF Mono', 'Fira Code', ui-monospace, monospace"

-- A layout with what is known about each node and each edge.
structure Scene (ν ε : Type) where
  width : Quantity
  height : Quantity
  groups : List (PlacedGroup Quantity)
  nodes : List (PlacedNode Quantity × ν)
  edges : List (PlacedEdge Quantity × ε)

namespace Scene

variable {ν ε : Type}

-- A layout together with data on its nodes and its edges, in their order.
def ofGraph (g : PlacedGraph Quantity) (nodes : List ν) (edges : List ε) : Scene ν ε where
  width := g.width
  height := g.height
  groups := g.allGroups
  nodes := g.nodes.zip nodes
  edges := g.edges.zip edges

-- Groups first, then nodes, then edges.
def body (s : Scene ν ε) (group : PlacedGroup Quantity → List Element)
    (node : PlacedNode Quantity → ν → List Element) (edge : PlacedEdge Quantity → ε → List Element) :
    List Element :=
  s.groups.flatMap group ++ s.nodes.flatMap (fun (n, data) => node n data)
    ++ s.edges.flatMap (fun (e, data) => edge e data)

end Scene

namespace Paint

def text (p : Paint) (size : Quantity) (fill : String) (weight : Int := 400) : TextStyle :=
  { size, fill, weight, family := p.fontFamily }

-- The colour of secondary text, at the start of a line.
def heading (p : Paint) (size : Quantity) (fill : String) (weight : Int) : TextStyle :=
  { p.text size fill weight with anchor := "start" }

-- Edge labels beside a line.
def edgeText (p : Paint) : TextStyle :=
  p.text p.fonts.edgeLabelSize p.colors.textMuted p.fonts.edgeLabelWeight

def outerStroke (p : Paint) (dash : Option String := none) : Stroke :=
  ⟨p.colors.nodeStroke, 1.0, dash⟩

def italic : Attribute :=
  ("font-style", "italic")

-- The line of a connector.
def route (p : Paint) (points : List (Point Quantity)) (dash : Option String) : Element :=
  lines points false (("fill", "none") :: Stroke.attributes ⟨p.colors.line, 0.75, dash⟩)

-- The box behind a label.
def pill (p : Paint) (text : String) (place : Point Quantity) (height : Quantity) : Element :=
  let width := Text.estimatedWidth text p.fonts.edgeLabelSize p.fonts.edgeLabelWeight + 12
  rectangle (place.toCorner width height) width height (some 2) p.colors.bg
    (some ⟨p.colors.innerStroke, 0.5, none⟩)

-- Where the label of a route stands.
def labelPlace (e : PlacedEdge Quantity) : Point Quantity :=
  e.labelAnchor.getD (midpoint e.points)

-- Height of the band above the picture that holds the title.
def titleBand : Int := 40

def titleSize : Quantity := 16

def titleWeight : Int := 700

-- The picture around a body: the background and the title. An empty title is none. The band of the
-- title is added to the height even where it is empty, so a height of minus zero is written as
-- zero.
def document (p : Paint) (width height : Quantity) (title : Option String) (body : List Element) :
    Document :=
  let background (w h : Quantity) : List Element :=
    if p.isTransparent then [] else [rectangle ⟨0, 0⟩ w h none p.colors.bg none]
  match title.filter (· ≠ "") with
  | none =>
    let height := height + .whole 0
    { width, height, elements := background width height ++ [.group [] body] }
  | some title =>
    let needed := Text.estimatedWidth title titleSize titleWeight + .whole (2 * titleBand)
    let width := Scalar.larger width needed
    let height := height + .whole titleBand
    let heading := label (p.text titleSize p.colors.text titleWeight) title ⟨width / 2, 24⟩
    let moved : Attribute := ("transform", s!"translate(0, {titleBand})")
    { width, height, elements := background width height ++ [heading, .group [moved] body] }

end Paint

end LayeredDiagram.Svg
