import LayeredDiagram.Layout.Horizontal
import LayeredDiagram.Layout.Register
import LayeredDiagram.Layout.Vertical
/-!
The layered layout of a graph: centres of nodes and of labels, polylines from centre to centre, and
the room reserved in empty groups.
-/

namespace LayeredDiagram

structure RawLayout (α : Type) where
  -- The centre of each node.
  centers : List (String × Point α) := []
  ranks : List (String × Nat) := []
  -- The route of each real edge, from source to target.
  routes : List (Nat × List (Point α)) := []
  -- Edges drawn against their direction.
  reversed : List Nat := []
  -- The centre of the room for each label.
  labelAnchors : List (Nat × Point α) := []
  -- The room reserved in each group without content.
  placeholders : List (String × Box α) := []

variable {α : Type} [Scalar α]

-- A layout before its coordinates: all items, in order on their ranks.
structure Arrangement (α : Type) where
  stock : Stock α
  ranks : Ranking String
  layers : Layers α

-- A layout with all coordinates found.
structure Solution (α : Type) extends Arrangement α where
  x : Abscissae α
  bands : List (RankBand α)

-- The arrangement of a graph, which must be well formed.
def Arrangement.ofGraph (sweeps : Nat) (nodes : List (SizedNode α)) (edges : List (SizedEdge α))
    (spacing : Spacing α) (entries : List Group.Entry) : Arrangement α :=
  let ids := nodes.map (·.id)
  let oriented := OrientedEdge.all ids edges
  let ranks := Ranking.ofEdges ids oriented
  let stock := Stock.ofGraph nodes edges spacing entries oriented ranks
  { stock, ranks, layers := Layers.ofStock sweeps stock }

namespace Solution

-- Runs all phases of the layout; the graph must be well formed.
def solve (sweeps : Nat) (nodes : List (SizedNode α)) (edges : List (SizedEdge α))
    (spacing : Spacing α) (entries : List Group.Entry) : Solution α :=
  let arrangement := Arrangement.ofGraph sweeps nodes edges spacing entries
  { toArrangement := arrangement
    x := Abscissae.ofLayers spacing entries arrangement.stock.segments arrangement.layers
    bands := RankBand.ofLayers spacing arrangement.stock.span arrangement.layers }

def center (s : Solution α) (i : Item α) : Point α :=
  ⟨s.x.value (.item i.slot), (RankBand.center? s.bands i.rank).getD 0⟩

-- Runs through the items of a chain: down to the middle of each gap, there sideways, and on.
def chainPoints (s : Solution α) (c : Chain α) : List (Point α) :=
  let bends := c.segments.map fun seg =>
    (⟨s.x.value (.item seg.lower.slot), RankBand.midline s.bands seg.upper.rank⟩ : Point α)
  (c.items.head?.map s.center).toList ++ bends ++ (c.items.getLast?.map s.center).toList

-- The route of a chain in the direction of its edge.
def chainRoute (s : Solution α) (c : Chain α) : List (Point α) :=
  if c.isReversed then (s.chainPoints c).reverse else s.chainPoints c

def loopCount (s : Solution α) (node : String) : Nat :=
  (Loop.ofNode s.stock.loops node).length

-- Out of the right side of the node and back to it, around the loops inside.
def loopRoute (s : Solution α) (reach : α) (n : SizedNode α) (center : Point α) (l : Loop α) :
    List (Point α) :=
  let right := center.x + n.width / 2
  let outer := right + l.inner + reach
  let offset := n.height / 2 * ((l.slot + 1 : Nat) : α) / ((s.loopCount n.id + 1 : Nat) : α)
  [⟨right, center.y - offset⟩, ⟨outer, center.y - offset⟩, ⟨outer, center.y + offset⟩,
    ⟨right, center.y + offset⟩]

-- The centre of the label of a loop, right of its outer side.
def loopAnchor (reach : α) (n : SizedNode α) (center : Point α) (l : Loop α) (e : SizedEdge α) :
    Point α :=
  let outer := center.x + n.width / 2 + l.inner + reach
  ⟨outer + Loop.labelGap / 2 + e.labelWidth / 2, center.y⟩

-- A loop with its node, the centre of the node and its edge.
def loopData? (nodes : List (SizedNode α)) (edges : List (SizedEdge α)) (s : Solution α) (l : Loop α) :
    Option (SizedNode α × Point α × SizedEdge α) := do
  let n ← nodes.find? (·.id == l.node)
  let item ← s.stock.items.find? (·.slot = .node l.node)
  let e ← edges[l.edge]?
  return (n, s.center item, e)

def nodeCenters (s : Solution α) : List (String × Point α) :=
  s.stock.items.filterMap fun i =>
    match i.slot with
    | .node id => some (id, s.center i)
    | _ => none

def routes (nodes : List (SizedNode α)) (edges : List (SizedEdge α)) (reach : α) (s : Solution α) :
    List (Nat × List (Point α)) :=
  (s.stock.chains.map fun c => (c.edge, s.chainRoute c))
    ++ s.stock.loops.filterMap fun l =>
      (s.loopData? nodes edges l).map fun (n, center, _) => (l.edge, s.loopRoute reach n center l)

def labelAnchors (nodes : List (SizedNode α)) (edges : List (SizedEdge α)) (reach : α)
    (s : Solution α) : List (Nat × Point α) :=
  (s.stock.chains.filterMap fun c =>
      (c.items.find? (·.kind = .label)).map fun i => (c.edge, s.center i))
    ++ s.stock.loops.filterMap fun l =>
      match s.loopData? nodes edges l with
      | some (n, center, e) =>
        if e.hasLabel then some (l.edge, loopAnchor reach n center l e) else none
      | none => none

def placeholders (s : Solution α) : List (String × Box α) :=
  s.stock.items.filterMap fun i =>
    match i.slot with
    | .placeholder g => some (g, Box.around (s.center i) i.width i.height)
    | _ => none

def toRaw (nodes : List (SizedNode α)) (edges : List (SizedEdge α)) (reach : α) (s : Solution α) :
    RawLayout α where
  centers := s.nodeCenters
  ranks := s.ranks
  routes := s.routes nodes edges reach
  reversed := (s.stock.chains.filter (·.isReversed)).map (·.edge)
  labelAnchors := s.labelAnchors nodes edges reach
  placeholders := s.placeholders

end Solution

namespace RawLayout

-- The layout of a graph, or what is wrong with it. A graph without nodes has the empty layout,
-- whatever its edges and groups name.
def ofGraph (sweeps : Nat) (nodes : List (SizedNode α)) (edges : List (SizedEdge α))
    (spacing : Spacing α) (groups : List Group) : Except LayoutError (RawLayout α) :=
  if nodes.isEmpty then .ok {}
  else
    let entries := Group.forest [] groups
    match Register.error? nodes edges entries with
    | some e => .error e
    | none => .ok ((Solution.solve sweeps nodes edges spacing entries).toRaw nodes edges spacing.selfLoop)

end RawLayout

end LayeredDiagram
