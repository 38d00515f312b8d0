import LayeredDiagram.Layout.Rank
/-!
Items: what stands side by side in the ranks. Besides the nodes there is a bend for every rank that an
edge crosses (one of them reserves the room for its label), a filler for every rank that a group spans
without content, and a placeholder inside every group without content.
-/

namespace LayeredDiagram

inductive ItemKind where
  | node
  | dummy
  | label
  | filler
  | placeholder
  deriving DecidableEq

-- What an item stands for; no two items of a layout share it.
inductive Slot where
  | node (id : String)
  | bend (edge rank : Nat)
  | filler (group : String) (rank : Nat)
  | placeholder (group : String)
  deriving DecidableEq, Hashable

structure Item (α : Type) where
  slot : Slot
  rank : Nat
  width : α
  height : α
  kind : ItemKind
  -- The groups around the item, outermost first.
  path : List String
  -- Room on the right for loops.
  extra : α

-- An edge between different nodes with one item on each rank from its upper to its lower end.
structure Chain (α : Type) where
  -- The position of the edge in the input.
  edge : Nat
  weight : α
  items : List (Item α)
  isReversed : Bool

-- A part of a chain between neighbouring ranks.
structure Segment (α : Type) where
  upper : Item α
  lower : Item α
  weight : α

-- An edge from a node to itself. Loops on one node nest outwards.
structure Loop (α : Type) where
  -- The position of the edge in the input.
  edge : Nat
  node : String
  -- Distance of the loop's own room from the node.
  inner : α
  -- Distance of the end of that room.
  outer : α
  -- Number of loops inside.
  slot : Nat

variable {α : Type} [Scalar α]

namespace Item

-- Whether the item is neither a node nor a placeholder.
def isDummy (i : Item α) : Bool :=
  i.kind = .dummy || i.kind = .label || i.kind = .filler

-- Whether the item is a bend of an edge.
def isBend (i : Item α) : Bool :=
  i.kind = .dummy || i.kind = .label

-- The ranks on which a group has items.
def ranksOf (items : List (Item α)) (group : String) : List Nat :=
  (items.filter fun i => i.path.contains group).map (·.rank)

end Item

namespace Loop

-- Room between a loop and its label, shared between both sides.
def labelGap : α := 4

-- Room that a loop takes.
def room (spacing : Spacing α) (e : SizedEdge α) : α :=
  if e.hasLabel then spacing.selfLoop + (labelGap + e.labelWidth) else spacing.selfLoop

-- The loops of a node among the loops placed so far.
def ofNode (loops : List (Loop α)) (node : String) : List (Loop α) :=
  loops.filter (·.node == node)

-- The distance from a node up to which loops take room.
def reach (loops : List (Loop α)) (node : String) : α :=
  match (ofNode loops node).getLast? with
  | some l => l.outer
  | none => 0.0

-- Places the real edges from nodes to themselves, each outside those before it.
def all (spacing : Spacing α) (edges : List (SizedEdge α)) : List (Loop α) :=
  (edges.zipIdx.filter fun (e, _) => e.kind = .real && e.isLoop).foldl
    (fun loops (e, index) =>
      let inner := reach loops e.source
      loops ++ [{ edge := index, node := e.source, inner, outer := inner + room spacing e,
                  slot := (ofNode loops e.source).length }])
    []

end Loop

namespace Chain

-- The longest common beginning of two lists.
def commonPath : List String → List String → List String
  | a :: as, b :: bs => if a = b then a :: commonPath as bs else []
  | _, _ => []

-- The item on one of the ranks that an edge crosses.
def bend (e : SizedEdge α) (index rank : Nat) (path : List String) (isLabel : Bool) : Item α :=
  if isLabel then ⟨.bend index rank, rank, e.labelWidth, e.labelHeight, .label, path, 0⟩
  else ⟨.bend index rank, rank, 0, 0, .dummy, path, 0⟩

def bends (e : SizedEdge α) (index : Nat) (upper lower : Item α) : List (Item α) :=
  let span := lower.rank - upper.rank
  let path := commonPath upper.path lower.path
  (List.range (span - 1)).map fun k =>
    let rank := upper.rank + 1 + k
    bend e index rank path (e.hasLabel && rank == upper.rank + span / 2)

-- The chain of an oriented edge.
def ofEdge? (edges : List (SizedEdge α)) (nodes : List (Item α)) (o : OrientedEdge String) :
    Option (Chain α) := do
  let e ← edges[o.index]?
  let upper ← nodes.find? (·.slot = .node o.upper)
  let lower ← nodes.find? (·.slot = .node o.lower)
  return { edge := o.index, weight := e.weight,
           items := upper :: bends e o.index upper lower ++ [lower], isReversed := o.isReversed }

-- The items of a chain other than its ends.
def inner (c : Chain α) : List (Item α) :=
  c.items.tail.dropLast

def segments (c : Chain α) : List (Segment α) :=
  (c.items.zip c.items.tail).map fun (upper, lower) => ⟨upper, lower, c.weight⟩

end Chain

-- All items of a layout.
structure Stock (α : Type) where
  entries : List Group.Entry
  items : List (Item α)
  chains : List (Chain α)
  loops : List (Loop α)

namespace Stock

def nodeItems (nodes : List (SizedNode α)) (entries : List Group.Entry) (ranks : Ranking String)
    (loops : List (Loop α)) : List (Item α) :=
  nodes.map fun n =>
    ⟨.node n.id, ranks.rank n.id, n.width, n.height, .node, Group.ownerPath entries n.id,
      Loop.reach loops n.id⟩

-- The rank of a group without content: the first one of the nearest group around it that has
-- content.
def emptyRank (content : List (Item α)) (e : Group.Entry) : Nat :=
  (e.path.dropLast.reverse.findSome? fun g => (Item.ranksOf content g).min?).getD 0

-- The placeholder of a group, if the group has neither content nor groups inside.
def placeholder? (spacing : Spacing α) (content : List (Item α)) (e : Group.Entry) :
    Option (Item α) :=
  if e.children.isEmpty && (Item.ranksOf content e.id).isEmpty then
    let pad := spacing.groupPadding
    some
      ⟨.placeholder e.id, emptyRank content e,
        Scalar.larger 0 (spacing.emptyGroupWidth - 2 * pad),
        Scalar.larger 0 (spacing.emptyGroupHeight - 2 * pad - spacing.groupHeader),
        .placeholder, e.path, 0⟩
  else none

-- Fillers on the ranks between the first and the last item of a group that hold none of its items.
def fillers (items : List (Item α)) (e : Group.Entry) : List (Item α) :=
  let ranks := Item.ranksOf items e.id
  match ranks.min?, ranks.max? with
  | some first, some last =>
    ((List.range (last + 1 - first)).map (first + ·)).filter (fun r => !ranks.contains r) |>.map
      fun r => ⟨.filler e.id r, r, 0, 0, .filler, e.path, 0⟩
  | _, _ => []

-- Adds the fillers of all groups, inner groups before the groups around them.
def fill (items : List (Item α)) (entries : List Group.Entry) : List (Item α) :=
  entries.reverse.foldl (fun items e => items ++ fillers items e) items

def ofGraph (nodes : List (SizedNode α)) (edges : List (SizedEdge α)) (spacing : Spacing α)
    (entries : List Group.Entry) (oriented : List (OrientedEdge String)) (ranks : Ranking String) :
    Stock α :=
  let loops := Loop.all spacing edges
  let nodeItems := nodeItems nodes entries ranks loops
  let chains := (oriented.filter (·.kind = .real)).filterMap (Chain.ofEdge? edges nodeItems)
  let content := nodeItems ++ chains.flatMap Chain.inner
  let placeholders := entries.reverse.filterMap (placeholder? spacing content)
  { entries, items := fill (content ++ placeholders) entries, chains, loops }

def segments (s : Stock α) : List (Segment α) :=
  s.chains.flatMap Chain.segments

-- The first and last rank with items of a group.
def span (s : Stock α) (group : String) : Nat × Nat :=
  let ranks := Item.ranksOf s.items group
  (ranks.min?.getD 0, ranks.max?.getD 0)

-- The items of each rank in the order in which they were made.
def layers (s : Stock α) : List (List (Item α)) :=
  let height := ((s.items.map (·.rank)).max?.map (· + 1)).getD 0
  (List.range height).map fun r => s.items.filter (·.rank == r)

end Stock

end LayeredDiagram
