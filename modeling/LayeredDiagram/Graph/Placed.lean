import LayeredDiagram.Graph.Geometry
/-!
A finished layout: boxes, routes and group rectangles on a canvas.
-/

namespace LayeredDiagram

-- A box with its top left corner at `(x, y)`.
structure PlacedNode (α : Type) where
  id : String
  x : α
  y : α
  width : α
  height : α
  label : Option String := none
  kind : Option String := none

-- An edge with its route from the border of the source to the border of the target.
structure PlacedEdge (α : Type) where
  source : String
  target : String
  points : List (Point α)
  label : Option String := none
  -- Centre of the box kept free for the label.
  labelAnchor : Option (Point α) := none

structure PlacedGroup (α : Type) where
  id : String
  x : α
  y : α
  width : α
  height : α
  label : Option String := some ""
  children : List (PlacedGroup α) := []
  kind : Option String := none
  deriving Inhabited

structure PlacedGraph (α : Type) where
  width : α
  height : α
  nodes : List (PlacedNode α) := []
  edges : List (PlacedEdge α) := []
  groups : List (PlacedGroup α) := []

variable {α : Type} [Scalar α]

namespace PlacedNode

def right (n : PlacedNode α) : α :=
  n.x + n.width

def bottom (n : PlacedNode α) : α :=
  n.y + n.height

def center (n : PlacedNode α) : Point α :=
  Point.toCenter ⟨n.x, n.y⟩ n.width n.height

def bounds (n : PlacedNode α) : Bounds α :=
  ⟨n.x, n.y, n.right, n.bottom⟩

def shift (dx dy : α) (n : PlacedNode α) : PlacedNode α :=
  { n with x := n.x + dx, y := n.y + dy }

end PlacedNode

namespace PlacedEdge

def shift (dx dy : α) (e : PlacedEdge α) : PlacedEdge α :=
  { e with points := e.points.map (Point.shift dx dy), labelAnchor := e.labelAnchor.map (Point.shift dx dy) }

end PlacedEdge

namespace PlacedGroup

def right (g : PlacedGroup α) : α :=
  g.x + g.width

def bottom (g : PlacedGroup α) : α :=
  g.y + g.height

-- The label as it is written; a missing one leaves nothing.
def labelText (g : PlacedGroup α) : String :=
  g.label.getD ""

def bounds (g : PlacedGroup α) : Bounds α :=
  ⟨g.x, g.y, g.right, g.bottom⟩

mutual

-- The group and all groups inside it, parents before children.
def walk : PlacedGroup α → List (PlacedGroup α)
  | ⟨id, x, y, width, height, label, children, kind⟩ =>
    ⟨id, x, y, width, height, label, children, kind⟩ :: walkAll children

-- All groups of a forest, parents before children.
def walkAll : List (PlacedGroup α) → List (PlacedGroup α)
  | [] => []
  | g :: gs => walk g ++ walkAll gs

end

mutual

-- Moves a group with everything inside it.
def shift (dx dy : α) : PlacedGroup α → PlacedGroup α
  | ⟨id, x, y, width, height, label, children, kind⟩ =>
    ⟨id, x + dx, y + dy, width, height, label, shiftAll dx dy children, kind⟩

def shiftAll (dx dy : α) : List (PlacedGroup α) → List (PlacedGroup α)
  | [] => []
  | g :: gs => shift dx dy g :: shiftAll dx dy gs

end

end PlacedGroup

namespace PlacedGraph

-- The node with a given id, the first one if ids repeat.
def node? (g : PlacedGraph α) (id : String) : Option (PlacedNode α) :=
  g.nodes.find? (·.id == id)

def allGroups (g : PlacedGraph α) : List (PlacedGroup α) :=
  PlacedGroup.walkAll g.groups

end PlacedGraph

end LayeredDiagram
