import LayeredDiagram.Graph.Placed
import LayeredDiagram.Graph.Sized
/-!
The rectangles of groups: around the boxes of the nodes that a group owns, its placeholder and the
rectangles of the groups inside it, with padding on all sides and a header on top.
-/

namespace LayeredDiagram

variable {α : Type} [Scalar α]

-- What groups are put around.
structure Content (α : Type) where
  entries : List Group.Entry
  -- The box of each node.
  boxes : List (String × Box α)
  -- The room reserved in groups without content.
  placeholders : List (String × Box α)
  spacing : Spacing α

namespace Content

-- Whether a node belongs to a group.
def owns (c : Content α) (group node : String) : Bool :=
  match Group.owner? c.entries node with
  | some e => e.id == group
  | none => false

-- The boxes of the nodes that a group owns.
def memberBounds (c : Content α) (group : String) (members : List String) : List (Bounds α) :=
  (members.filter (c.owns group)).filterMap fun m => (c.boxes.lookup m).map Bounds.ofBox

-- Padding on all sides and a header on top.
def frame (c : Content α) (inner : Bounds α) : Bounds α :=
  let pad := c.spacing.groupPadding
  ⟨inner.left - pad, inner.top - pad - c.spacing.groupHeader, inner.right + pad, inner.bottom + pad⟩

-- The rectangle around some content, or that of an empty group at the origin.
def around (c : Content α) (content : List (Bounds α)) : Bounds α :=
  match Bounds.hull? content with
  | some inner => c.frame inner
  | none => ⟨0.0, 0.0, c.spacing.emptyGroupWidth, c.spacing.emptyGroupHeight⟩

-- Rectangles of groups side by side, and of all groups inside them and themselves, each group after
-- those inside it.
structure Measured (α : Type) where
  own : List (Bounds α)
  all : List (String × Bounds α)

mutual

def measure (c : Content α) : Group → Bounds α × List (String × Bounds α)
  | ⟨id, _, members, children, _⟩ =>
    let inside := measureAll c children
    let placeholder := ((c.placeholders.lookup id).map Bounds.ofBox).toList
    let own := c.around (c.memberBounds id members ++ inside.own ++ placeholder)
    (own, inside.all ++ [(id, own)])

def measureAll (c : Content α) : List Group → Measured α
  | [] => ⟨[], []⟩
  | g :: gs =>
    let first := measure c g
    let rest := measureAll c gs
    ⟨first.1 :: rest.own, first.2 ++ rest.all⟩

end

-- The rectangle found last for an id.
def boundsOf? (all : List (String × Bounds α)) (id : String) : Option (Bounds α) :=
  all.reverse.lookup id

end Content

namespace PlacedGroup

def rectangles (boxes placeholders : List (String × Box α)) (spacing : Spacing α)
    (groups : List Group) : List (String × Bounds α) :=
  let content := { entries := Group.forest [] groups, boxes, placeholders, spacing : Content α }
  (content.measureAll groups).all

mutual

-- A group with its rectangle and those of all groups inside it.
def ofGroup (all : List (String × Bounds α)) : Group → PlacedGroup α
  | ⟨id, label, _, children, kind⟩ =>
    let b := (Content.boundsOf? all id).getD ⟨0, 0, 0, 0⟩
    { id, x := b.left, y := b.top, width := b.width, height := b.height, label,
      children := ofGroups all children, kind }

def ofGroups (all : List (String × Bounds α)) : List Group → List (PlacedGroup α)
  | [] => []
  | g :: gs => ofGroup all g :: ofGroups all gs

end

-- Stretches groups side by side to one left and one right edge; groups inside them stay.
def stretch (groups : List (PlacedGroup α)) : List (PlacedGroup α) :=
  match Scalar.smallest? (groups.map (·.x)), Scalar.largest? (groups.map right) with
  | some left, some right => groups.map fun g => { g with x := left, width := right - left }
  | _, _ => groups

end PlacedGroup

end LayeredDiagram
