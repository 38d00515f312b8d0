import LayeredDiagram.Layout.Graph
import LayeredDiagram.Numeric.Quantity
/-!
Layouts of quantities, which unlike exact numbers may be out of reach of the arithmetic: a size or a
coordinate that has no result, and a gap or a weight that is no whole number of units, keep a graph
from being laid out.
-/

namespace LayeredDiagram

namespace Quantity

-- A size far from the limits of the arithmetic. No layout of such sizes comes near them.
def isModerate : Quantity → Bool
  | whole n => n.natAbs < Nat.pow 10 270
  | real x => x.abs < 1e270
  | faulty _ => false

def firstFault? (qs : List Quantity) : Option NumberFault :=
  qs.findSome? fault?

end Quantity

def SizedNode.numbers (n : SizedNode Quantity) : List Quantity :=
  [n.width, n.height]

def SizedEdge.numbers (e : SizedEdge Quantity) : List Quantity :=
  [e.labelWidth, e.labelHeight, e.weight]

def Spacing.numbers (s : Spacing Quantity) : List Quantity :=
  [s.node, s.rank, s.edge, s.groupPadding, s.groupHeader, s.emptyGroupWidth, s.emptyGroupHeight,
    s.selfLoop]

def Point.numbers (p : Point Quantity) : List Quantity :=
  [p.x, p.y]

namespace Constraint

-- The gaps of all constraints as real numbers.
def gaps (spacing : Spacing Quantity) (entries : List Group.Entry) (a : Arrangement Quantity) :
    List Quantity :=
  (all spacing entries a.stock.segments a.layers).map fun c => c.gap.asReal

-- What keeps gaps and weights from being counted in whole units.
def fault? (spacing : Spacing Quantity) (entries : List Group.Entry) (a : Arrangement Quantity) :
    Option NumberFault :=
  let gaps := gaps spacing entries a
  Quantity.firstFault? gaps
    |>.or (a.stock.segments.findSome? fun s => (importance s).roundingFault?)
    |>.or (gaps.findSome? fun gap => (hundredths gap).roundingFault?)

end Constraint

namespace RawLayout

def numbers (r : RawLayout Quantity) : List Quantity :=
  r.centers.flatMap (·.2.numbers) ++ r.routes.flatMap (·.2.flatMap Point.numbers)
    ++ r.labelAnchors.flatMap (·.2.numbers)

-- What keeps the items of a graph from getting coordinates.
def fault? (sweeps : Nat) (nodes : List (SizedNode Quantity)) (edges : List (SizedEdge Quantity))
    (spacing : Spacing Quantity) (groups : List Group) : Option NumberFault :=
  let sizes := nodes.flatMap (·.numbers) ++ edges.flatMap (·.numbers) ++ spacing.numbers
  if nodes.isEmpty || sizes.all (·.isModerate) then none
  else
    let entries := Group.forest [] groups
    let weights := (edges.filter fun e => !e.isLoop).map fun e => e.weight.asReal
    Quantity.firstFault? weights
      |>.or (Constraint.fault? spacing entries (Arrangement.ofGraph sweeps nodes edges spacing entries))

-- A layout, unless there is a fault before its coordinates are known, or in one of them.
def unlessFaulty {β : Type} (before : Option NumberFault) (numbers : β → List Quantity)
    (layout : Except LayoutError β) : Except LayoutError β :=
  layout.bind fun l =>
    match before.or (Quantity.firstFault? (numbers l)) with
    | some f => .error (.number f)
    | none => .ok l

-- The layout of a graph of quantities.
def ofQuantities (sweeps : Nat) (nodes : List (SizedNode Quantity)) (edges : List (SizedEdge Quantity))
    (spacing : Spacing Quantity) (groups : List Group) : Except LayoutError (RawLayout Quantity) :=
  unlessFaulty (fault? sweeps nodes edges spacing groups) numbers (ofGraph sweeps nodes edges spacing groups)

end RawLayout

namespace PlacedGraph

def numbers (g : PlacedGraph Quantity) : List Quantity :=
  [g.width, g.height] ++ g.nodes.flatMap (fun n => [n.x, n.y])
    ++ g.edges.flatMap (fun e => e.points.flatMap Point.numbers ++ e.labelAnchor.toList.flatMap Point.numbers)
    ++ g.allGroups.flatMap fun p => [p.x, p.y, p.width, p.height]

-- What keeps the canvas from being measured in whole cells.
def canvasFault? (g : PlacedGraph Quantity) : Option NumberFault :=
  g.width.roundingFault?.or g.height.roundingFault?

end PlacedGraph

namespace SizedGraph

def sizeFault? (g : SizedGraph Quantity) : Option NumberFault :=
  Quantity.firstFault? (g.nodes.flatMap (·.numbers) ++ g.edges.flatMap (·.numbers))

-- The finished layout of a graph of quantities.
def layoutQuantities (sweeps : Nat) (g : SizedGraph Quantity) :
    Except LayoutError (PlacedGraph Quantity) :=
  match g.sizeFault? with
  | some f => .error (.number f)
  | none =>
    RawLayout.unlessFaulty (RawLayout.fault? sweeps g.nodes g.edges g.spacing g.groups)
      PlacedGraph.numbers (g.layout sweeps)

end SizedGraph

end LayeredDiagram
