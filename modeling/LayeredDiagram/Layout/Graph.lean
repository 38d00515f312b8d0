import LayeredDiagram.Layout.Raw
import LayeredDiagram.Routing.GroupBounds
import LayeredDiagram.Routing.Route
/-!
The finished layout of a graph: boxes with their corners, routes along the axes from border to
border, group rectangles, and a canvas with margins around everything.
-/

namespace LayeredDiagram

variable {α : Type} [Scalar α]

namespace SizedGraph

def boxes (g : SizedGraph α) (raw : RawLayout α) : List (String × Box α) :=
  g.nodes.filterMap fun n => (raw.centers.lookup n.id).map fun c => (n.id, Box.around c n.width n.height)

-- The nodes with their corners.
def placeNodes (g : SizedGraph α) (raw : RawLayout α) : List (PlacedNode α) :=
  g.nodes.filterMap fun n =>
    (raw.centers.lookup n.id).map fun center =>
      let corner := center.toCorner n.width n.height
      { id := n.id, x := corner.x, y := corner.y, width := n.width, height := n.height,
        label := n.label, kind := n.kind }

def route (boxes : List (String × Box α)) (raw : RawLayout α) (index : Nat) (e : SizedEdge α) :
    List (Point α) :=
  let points := (raw.routes.lookup index).getD []
  let snapped := Route.snap (!raw.reversed.contains index) points
  Route.clip (boxes.lookup e.source) (boxes.lookup e.target) snapped

-- The real edges with their positions among all edges.
def realEdges (g : SizedGraph α) : List (SizedEdge α × Nat) :=
  g.edges.zipIdx.filter fun (e, _) => e.kind = .real

def placeEdges (g : SizedGraph α) (raw : RawLayout α) : List (PlacedEdge α) :=
  let boxes := g.boxes raw
  g.realEdges.map fun (e, index) =>
    { source := e.source, target := e.target, points := route boxes raw index e, label := e.label,
      labelAnchor := raw.labelAnchors.lookup index }

def labelBounds (g : SizedGraph α) (raw : RawLayout α) : List (Bounds α) :=
  g.realEdges.filterMap fun (e, index) =>
    (raw.labelAnchors.lookup index).map fun anchor =>
      Bounds.ofBox (Box.around anchor e.labelWidth e.labelHeight)

def placeGroups (g : SizedGraph α) (raw : RawLayout α) : List (PlacedGroup α) :=
  let all := PlacedGroup.rectangles (g.boxes raw) raw.placeholders g.spacing g.groups
  let groups := PlacedGroup.ofGroups all g.groups
  if g.uniformBands then PlacedGroup.stretch groups else groups

-- Moves everything so that the margins are free around it.
def onCanvas (margin : Margin α) (labels : List (Bounds α)) (nodes : List (PlacedNode α))
    (edges : List (PlacedEdge α)) (groups : List (PlacedGroup α)) : PlacedGraph α :=
  let extents := nodes.map (·.bounds) ++ (PlacedGroup.walkAll groups).map (·.bounds) ++ labels
    ++ edges.flatMap fun e => e.points.map Bounds.ofPoint
  let canvas := (Bounds.hull? extents).getD ⟨0, 0, 0, 0⟩
  let dx := margin.x - canvas.left
  let dy := margin.y - canvas.top
  { width := canvas.width + 2 * margin.x
    height := canvas.height + 2 * margin.y
    nodes := nodes.map (·.shift dx dy)
    edges := edges.map (·.shift dx dy)
    groups := PlacedGroup.shiftAll dx dy groups }

def assemble (g : SizedGraph α) (raw : RawLayout α) : PlacedGraph α :=
  onCanvas g.margin (g.labelBounds raw) (g.placeNodes raw) (g.placeEdges raw) (g.placeGroups raw)

-- The finished layout of a graph. Only the direction from top to bottom exists, and a graph without
-- nodes has an empty layout.
def layout (sweeps : Nat) (g : SizedGraph α) : Except LayoutError (PlacedGraph α) :=
  if g.direction ≠ "TB" then .error (.unsupportedDirection g.direction)
  else if g.nodes.isEmpty then .ok { width := 0, height := 0 }
  else (RawLayout.ofGraph sweeps g.nodes g.edges g.spacing g.groups).map g.assemble

-- How many sweeps over the ranks are made where a caller does not say.
def defaultSweeps : Nat := 4

end SizedGraph

end LayeredDiagram
