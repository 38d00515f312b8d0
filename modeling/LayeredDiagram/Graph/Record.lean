import LayeredDiagram.Data.Value
import LayeredDiagram.Graph.Placed
/-!
Finished layouts as records.
-/

namespace LayeredDiagram

def Point.record (p : Point Quantity) : Value :=
  .record [("x", .number p.x), ("y", .number p.y)]

-- The fields of something with an id and a rectangle.
def rectangleFields (id : String) (x y width height : Quantity) : List (String × Value) :=
  [("id", .text id), ("x", .number x), ("y", .number y), ("width", .number width),
    ("height", .number height)]

def PlacedNode.record (n : PlacedNode Quantity) : Value :=
  .record (rectangleFields n.id n.x n.y n.width n.height)

-- An edge without label or without anchor lacks the field.
def PlacedEdge.record (e : PlacedEdge Quantity) : Value :=
  .record <|
    [("source", .text e.source), ("target", .text e.target),
      ("points", .list (e.points.map Point.record))]
    ++ (e.label.map fun l => ("label", .text l)).toList
    ++ (e.labelAnchor.map fun a => ("labelAnchor", a.record)).toList

mutual

def PlacedGroup.record : PlacedGroup Quantity → Value
  | ⟨id, x, y, width, height, _, children, _⟩ =>
    .record (rectangleFields id x y width height ++ [("children", .list (PlacedGroup.records children))])

def PlacedGroup.records : List (PlacedGroup Quantity) → List Value
  | [] => []
  | g :: gs => g.record :: PlacedGroup.records gs

end

namespace PlacedGraph

def fields (g : PlacedGraph Quantity) : List (String × Value) :=
  [("width", .number g.width), ("height", .number g.height),
    ("nodes", .list (g.nodes.map PlacedNode.record)), ("edges", .list (g.edges.map PlacedEdge.record)),
    ("groups", .list (PlacedGroup.records g.groups))]

end PlacedGraph

end LayeredDiagram
