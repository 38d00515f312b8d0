import LayeredDiagram.Layout.Item
/-!
The left to right order of the items of each rank. Items are moved towards the mean position of their
neighbours in the rank above, then below, over and over; the order with the least weight of crossings
is kept. Within a rank the items of a group stay together, and groups side by side stand in the same
order in all ranks.
-/

namespace LayeredDiagram

variable {α : Type} [Scalar α]

-- The items of each rank, from the top rank down, each rank from left to right.
abbrev Layers (α : Type) := List (List (Item α))

namespace Layers

def position? (layer : List (Item α)) (slot : Slot) : Option Nat :=
  layer.findIdx? (·.slot = slot)

-- The sum of the relative positions of a group's items over all ranks, and their number.
def spread (layers : Layers α) (group : String) : α × Nat :=
  layers.foldl
    (fun acc layer =>
      layer.zipIdx.foldl
        (fun (sum, count) (item, i) =>
          if item.path.contains group then
            (sum + ((i : α) + 0.5) / (layer.length : α), count + 1)
          else (sum, count))
        acc)
    (0, 0)

-- The mean relative position of a group's items.
def meanPosition (layers : Layers α) (group : String) : α :=
  match spread layers group with
  | (_, 0) => 0
  | (sum, count + 1) => sum / ((count + 1 : Nat) : α)

-- Groups side by side by their mean positions, ties in the order of declaration.
def rankSiblings (layers : Layers α) (siblings : List String) : List String :=
  ((siblings.map fun g => (g, meanPosition layers g)).mergeSort fun a b => a.2 ≤ b.2).map (·.1)

-- The families of groups side by side: the outermost groups, then the groups inside each group.
def families (entries : List Group.Entry) : List (List String) :=
  ((entries.filter (·.path.length = 1)).map (·.id)) :: entries.map (·.children)

-- The place of each group among the groups beside it.
def siblingOrder (entries : List Group.Entry) (layers : Layers α) : List (String × Nat) :=
  (families entries).flatMap fun family => (rankSiblings layers family).zipIdx

def place (order : List (String × Nat)) (group : String) : Nat :=
  (order.lookup group).getD 0

-- A single item, or all items of a group.
inductive Block (α : Type) where
  | single (item : Item α)
  | group (id : String)

-- The blocks of a rank at some depth, from left to right: single items at their own positions,
-- groups at the mean position of their items. On a tie single items come first, and then groups by
-- their first items.
def blocks (depth : Nat) (items : List (Item α)) : List (Block α) :=
  let singles : List (Block α × α) := items.zipIdx.filterMap fun (item, i) =>
    match item.path[depth]? with
    | none => some (Block.single item, (i : α))
    | some _ => none
  let groups := (items.filterMap fun item => item.path[depth]?).eraseDups
  let grouped : List (Block α × α) := groups.map fun g =>
    let slots := items.zipIdx.filter fun (item, _) => item.path[depth]? = some g
    let total : Nat := slots.foldr (fun slot total => slot.2 + total) 0
    (Block.group g, (total : α) / (slots.length : α))
  ((singles ++ grouped).mergeSort fun a b => a.2 ≤ b.2).map (·.1)

-- Writes out blocks; a group's block is filled with the content of the next group of the queue.
def deal (content : String → List (Item α)) : List (Block α) → List String → List (Item α)
  | [], _ => []
  | .single item :: blocks, queue => item :: deal content blocks queue
  | .group _ :: blocks, [] => deal content blocks []
  | .group _ :: blocks, g :: queue => content g ++ deal content blocks queue

def Block.group? : Block α → Option String
  | .group g => some g
  | .single _ => none

-- Makes every group contiguous within a rank. Single items keep their places; the places of groups
-- are handed out in the given order of groups. Below the depth of the deepest group nothing is left
-- to do.
def arrange (order : List (String × Nat)) : (levels depth : Nat) → List (Item α) → List (Item α)
  | 0, _, items => items
  | levels + 1, depth, items =>
    let blocks := blocks depth items
    let queue := (blocks.filterMap Block.group?).mergeSort fun a b => place order a ≤ place order b
    let content (g : String) : List (Item α) :=
      arrange order levels (depth + 1) (items.filter fun item => item.path[depth]? = some g)
    deal content blocks queue

-- The depth of the deepest group.
def depth (entries : List Group.Entry) : Nat :=
  ((entries.map (·.path.length)).max?).getD 0

def arrangeAll (entries : List Group.Entry) (layers : Layers α) : Layers α :=
  let order := siblingOrder entries layers
  layers.map (arrange order (depth entries) 0)

-- The mean position of an item's neighbours in a rank, weighted by their edges; without any the
-- item's own position.
def barycenter (reference : List (Item α)) (neighbours : Slot → List (Slot × α)) (slot : Slot)
    (index : Nat) : α :=
  let found := (neighbours slot).filterMap fun (other, weight) =>
    (position? reference other).map fun p => ((p : α) * weight, weight)
  let total := Scalar.sum (found.map (·.1))
  let weights := Scalar.sum (found.map (·.2))
  if weights ≤ 1e-9 then (index : α) else total / weights

-- Sorts one rank by the neighbours in another and makes its groups contiguous again.
def sortRank (entries : List Group.Entry) (neighbours : Slot → List (Slot × α))
    (layers : Layers α) (rank reference : Nat) : Layers α :=
  let layer := layers[rank]?.getD []
  let ref := layers[reference]?.getD []
  let keyed := layer.zipIdx.map fun (item, i) => (item, barycenter ref neighbours item.slot i)
  let sorted := (keyed.mergeSort fun a b => a.2 ≤ b.2).map (·.1)
  layers.set rank (arrange (siblingOrder entries layers) (depth entries) 0 sorted)

-- The neighbours of a slot in the rank above.
def above (segments : List (Segment α)) (slot : Slot) : List (Slot × α) :=
  (segments.filter (·.lower.slot = slot)).map fun s => (s.upper.slot, s.weight)

-- The neighbours of a slot in the rank below.
def below (segments : List (Segment α)) (slot : Slot) : List (Slot × α) :=
  (segments.filter (·.upper.slot = slot)).map fun s => (s.lower.slot, s.weight)

-- Goes down through the ranks and up again.
def sweep (entries : List Group.Entry) (segments : List (Segment α)) (layers : Layers α) :
    Layers α :=
  let size := layers.length
  let down := (List.range (size - 1)).foldl
    (fun layers r => sortRank entries (above segments) layers (r + 1) r) layers
  (List.range (size - 1)).reverse.foldl
    (fun layers r => sortRank entries (below segments) layers r (r + 1)) down

-- The ends of a segment as positions, and its weight.
structure Strand (α : Type) where
  upper : Nat
  lower : Nat
  weight : α

-- Whether two strands between the same two ranks cross.
def Strand.crosses (s t : Strand α) : Bool :=
  (s.upper < t.upper && t.lower < s.lower) || (t.upper < s.upper && s.lower < t.lower)

-- Adds the products of the weights of all crossing pairs.
def addCrossings (total : α) : List (Strand α) → α
  | [] => total
  | s :: rest =>
    addCrossings (rest.foldl (fun sum t => if s.crosses t then sum + s.weight * t.weight else sum) total)
      rest

def crossings (segments : List (Segment α)) (layers : Layers α) : α :=
  let gaps := (segments.map (·.upper.rank)).eraseDups
  gaps.foldl
    (fun total gap =>
      let strands := (segments.filter (·.upper.rank = gap)).map fun s =>
        { upper := (position? (layers[gap]?.getD []) s.upper.slot).getD 0
          lower := (position? (layers[gap + 1]?.getD []) s.lower.slot).getD 0
          weight := s.weight : Strand α }
      addCrossings total strands)
    0

-- The best layers seen so far, and the layers that the next sweep starts from.
structure Search (α : Type) where
  best : Layers α
  least : α
  current : Layers α

-- Sweeps until no crossings are left or the sweeps are used up.
def search (entries : List Group.Entry) (segments : List (Segment α)) :
    Nat → Search α → Search α
  | 0, s => s
  | sweeps + 1, s =>
    if s.least ≤ 1e-9 then s
    else
      let current := sweep entries segments s.current
      let weight := crossings segments current
      search entries segments sweeps
        (if weight < s.least then ⟨current, weight, current⟩ else { s with current })

-- The layers that the ranks start from, with their groups made contiguous.
def initial (s : Stock α) : Layers α :=
  arrangeAll s.entries s.layers

-- The order of the items of all ranks.
def ofStock (sweeps : Nat) (s : Stock α) : Layers α :=
  let first := initial s
  let found := search s.entries s.segments sweeps ⟨first, crossings s.segments first, first⟩
  arrangeAll s.entries found.best

end Layers

end LayeredDiagram
