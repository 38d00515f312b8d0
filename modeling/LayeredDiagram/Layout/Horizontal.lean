import LayeredDiagram.Layout.Flow
import LayeredDiagram.Layout.Order
/-!
Horizontal coordinates. Neighbours in a rank keep their gaps, groups keep their content and the groups
inside them within their bounds, and the total weighted distance between the ends of edge segments,
together with the widths of all groups, is least. Nodes then move to the middle of their neighbours
as far as the gaps allow.
-/

namespace LayeredDiagram

-- What gets a horizontal coordinate: items, the left and right bounds of groups, and for each
-- segment a helper to the left of both ends.
inductive Variable where
  | item (slot : Slot)
  | left (group : String)
  | right (group : String)
  | helper (segment : Nat)
  deriving DecidableEq, Hashable

-- Asks that `head - tail` be at least `gap`; a unit of `head - tail` costs `cost`.
structure Constraint (α : Type) where
  tail : Variable
  head : Variable
  gap : α
  cost : Nat

variable {α : Type} [Scalar α]

namespace Constraint

-- A gap without cost.
def require (tail head : Variable) (gap : α) : Constraint α :=
  ⟨tail, head, gap, 0⟩

-- What bounds an item on the side of a neighbour with which it shares a number of groups: the
-- outermost group around it that the neighbour is not in.
def bounding? (shared : Nat) (i : Item α) : Option String :=
  i.path[shared]?

-- The gap between neighbours in a rank.
def between (spacing : Spacing α) (left right : Item α) : Constraint α :=
  let shared := (Chain.commonPath left.path right.path).length
  let leftGroup := bounding? shared left
  let rightGroup := bounding? shared right
  let tail := leftGroup.elim (Variable.item left.slot) Variable.right
  let head := rightGroup.elim (Variable.item right.slot) Variable.left
  let leftOffset := if leftGroup.isSome then 0.0 else left.width / 2 + left.extra
  let rightOffset := if rightGroup.isSome then 0.0 else right.width / 2
  let bounded := leftGroup.isSome || rightGroup.isSome
  let gap :=
    if bounded || !(left.isDummy || right.isDummy) then spacing.node else spacing.edge
  require tail head (leftOffset + gap + rightOffset)

-- An item stays within the bounds of the innermost group around it.
def inside (spacing : Spacing α) (i : Item α) : List (Constraint α) :=
  match i.path.getLast? with
  | some g =>
    [require (.left g) (.item i.slot) (spacing.groupPadding + i.width / 2),
      require (.item i.slot) (.right g) (i.width / 2 + i.extra + spacing.groupPadding)]
  | none => []

-- A group stays within the bounds of the group around it.
def nested (spacing : Spacing α) (e : Group.Entry) : List (Constraint α) :=
  match e.parent? with
  | some p =>
    [require (.left p) (.left e.id) spacing.groupPadding,
      require (.right e.id) (.right p) spacing.groupPadding]
  | none => []

-- How much the distance between the ends of a segment matters: more, the more of them are bends.
def importance (s : Segment α) : α :=
  let bends := s.upper.isBend.toNat + s.lower.isBend.toNat
  let base : Nat := match bends with
    | 0 => 1
    | 1 => 2
    | _ => 8
  (base : α) * s.weight * 8

-- The cost of a unit of distance between the ends of a segment.
def segmentCost (s : Segment α) : Nat :=
  max 1 (Scalar.nearest (importance s)).toNat

-- The helper of a segment lies to the left of both ends, at a cost.
def aligned (index : Nat) (s : Segment α) : List (Constraint α) :=
  let cost := segmentCost s
  [⟨.helper index, .item s.upper.slot, 0, cost⟩, ⟨.helper index, .item s.lower.slot, 0, cost⟩]

-- A group has its left bound on the left, and its width has a cost.
def compact (e : Group.Entry) : Constraint α :=
  ⟨.left e.id, .right e.id, 0, 1⟩

def ofLayer (spacing : Spacing α) (layer : List (Item α)) : List (Constraint α) :=
  ((layer.zip layer.tail).map fun (left, right) => between spacing left right)
    ++ layer.flatMap (inside spacing)

-- All constraints of a layout.
def all (spacing : Spacing α) (entries : List Group.Entry) (segments : List (Segment α))
    (layers : Layers α) : List (Constraint α) :=
  layers.flatMap (ofLayer spacing)
    ++ entries.flatMap (nested spacing)
    ++ (segments.zipIdx.flatMap fun (s, i) => aligned i s)
    ++ entries.map compact

-- A gap in hundredths, without the noise of its last digits.
def hundredths (gap : α) : α :=
  Scalar.sixDecimals (gap * 100)

-- Gaps are counted in hundredths, rounded up.
def scaled (gap : α) : Int :=
  Scalar.ceil (hundredths gap)

def toArc (c : Constraint α) : Flow.Arc Variable :=
  { tail := c.tail, head := c.head, length := scaled c.gap, cost := c.cost, flow := 0 }

end Constraint

-- Horizontal coordinates; a variable that is not listed is at zero.
abbrev Abscissae (α : Type) := Std.HashMap Variable α

namespace Abscissae

def value (x : Abscissae α) (v : Variable) : α :=
  x.getD v 0.0

-- Coordinates in hundredths as lengths.
def ofLabels (labels : Flow.Labels Variable) : Abscissae α :=
  labels.map fun _ label => ((-label.distance : Int) : α) / 100

-- Pairs of numbers in lexicographic order.
def before (a b : α × α) : Bool :=
  a.1 < b.1 || (!(b.1 < a.1) && a.2 ≤ b.2)

-- The sums of the second entries up to each pair.
def running (sum : α) : List (α × α) → List (α × α)
  | [] => []
  | (value, weight) :: rest => (value, sum + weight) :: running (sum + weight) rest

-- The middle of the interval of weighted medians of pairs of a value and its weight.
def medianMidpoint (values : List (α × α)) : α :=
  let ordered := values.mergeSort before
  let half := Scalar.sum (ordered.map (·.2)) / 2
  let sums := running 0.0 ordered
  let last := (ordered.getLast?.map (·.1)).getD 0
  let lower := (sums.find? fun s => half - 1e-9 ≤ s.2).map (·.1)
  let upper := (sums.find? fun s => half + 1e-9 < s.2).map (·.1)
  (lower.getD last + upper.getD last) / 2

-- The furthest to the right that constraints push a variable.
def lowest? (arcs : List (Flow.Arc Variable)) (x : Abscissae α) (v : Variable) : Option α :=
  Scalar.largest? ((arcs.filter (·.head = v)).filterMap fun a =>
    match a.tail with
    | .helper _ => none
    | tail => some (x.value tail + ((a.length : Int) : α) / 100))

-- The furthest to the left that constraints push a variable.
def highest? (arcs : List (Flow.Arc Variable)) (x : Abscissae α) (v : Variable) : Option α :=
  Scalar.smallest? ((arcs.filter (·.tail = v)).filterMap fun a =>
    match v with
    | .helper _ => none
    | _ => some (x.value a.head - ((a.length : Int) : α) / 100))

-- The point of the interval nearest to a target, if the interval is not empty.
def clamp? (target : α) (low high : Option α) : Option α :=
  let empty : Bool := match low, high with
    | some l, some h => h < l
    | _, _ => false
  if empty then none
  else
    let raised := low.elim target (Scalar.larger target)
    some (high.elim raised (Scalar.smaller raised))

-- Moves one node to the middle of its neighbours as far as its gaps allow.
def balanceNode (arcs : List (Flow.Arc Variable)) (segments : List (Segment α)) (x : Abscissae α)
    (i : Item α) : Abscissae α :=
  let neighbours := Layers.above segments i.slot ++ Layers.below segments i.slot
  if neighbours.isEmpty then x
  else
    let target := medianMidpoint (neighbours.map fun (slot, weight) => (x.value (.item slot), weight))
    let v := Variable.item i.slot
    match clamp? target (lowest? arcs x v) (highest? arcs x v) with
    | some moved => x.insert v moved
    | none => x

-- Moves all nodes, rank by rank from left to right.
def balance (arcs : List (Flow.Arc Variable)) (segments : List (Segment α)) (layers : Layers α)
    (x : Abscissae α) : Abscissae α :=
  (layers.flatten.filter (·.kind = .node)).foldl (balanceNode arcs segments) x

-- The horizontal coordinates of a layout with given layers.
def ofLayers (spacing : Spacing α) (entries : List Group.Entry) (segments : List (Segment α))
    (layers : Layers α) : Abscissae α :=
  let arcs := (Constraint.all spacing entries segments layers).map Constraint.toArc
  balance arcs segments layers (ofLabels (Flow.place arcs))

end Abscissae

end LayeredDiagram
