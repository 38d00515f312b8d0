import LayeredDiagram.Graph.Geometry
import LayeredDiagram.Graph.Group
/-!
What is to be laid out: boxes of known size, directed edges between them, groups, and the gaps to
keep.
-/

namespace LayeredDiagram

structure SizedNode (α : Type) where
  id : String
  width : α
  height : α
  label : Option String := none
  kind : Option String := none

-- Edges that are drawn, and edges that only say what is placed above what.
inductive EdgeKind where
  | real
  | ordering
  deriving DecidableEq

structure SizedEdge (α : Type) where
  source : String
  target : String
  label : Option String
  -- Size of the box kept free for the label.
  labelWidth : α
  labelHeight : α
  kind : EdgeKind
  -- Least number of ranks between the two ends.
  minlen : Int
  -- How much the edge matters when cycles are broken and when boxes are aligned.
  weight : α

structure Spacing (α : Type) where
  -- Gap between neighbouring boxes of a rank.
  node : α
  -- Gap between neighbouring ranks.
  rank : α
  -- Gap between a route and its neighbours in a rank.
  edge : α
  -- Gap between the border of a group and its content.
  groupPadding : α
  -- Height of the header inside the top of a group.
  groupHeader : α
  emptyGroupWidth : α
  emptyGroupHeight : α
  -- How far a loop reaches out from its node.
  selfLoop : α

structure Margin (α : Type) where
  x : α
  y : α

structure SizedGraph (α : Type) where
  nodes : List (SizedNode α)
  edges : List (SizedEdge α)
  groups : List Group
  -- Only layouts from top to bottom, `TB`, exist.
  direction : String := "TB"
  spacing : Spacing α
  margin : Margin α
  -- Whether all outermost groups get the same width.
  uniformBands : Bool := false

variable {α : Type} [Scalar α]

namespace SizedEdge

-- An unlabelled edge of weight one.
def plain (source target : String) (kind : EdgeKind) : SizedEdge α :=
  { source, target, label := none, labelWidth := 0, labelHeight := 0, kind, minlen := 1, weight := 1 }

-- An edge that keeps its source above its target and is not drawn.
def ordering (source target : String) (weight : α) : SizedEdge α :=
  { plain source target .ordering with weight }

-- A drawn edge with a label box of the given size; no label, or an empty one, has no box.
def labelled (source target : String) (label : Option String) (width height : α) : SizedEdge α :=
  let shown := label.any (· ≠ "")
  { plain source target .real with
    label
    labelWidth := if shown then width else 0
    labelHeight := if shown then height else 0 }

-- Whether room is kept for a label.
def hasLabel (e : SizedEdge α) : Bool :=
  e.label.any (· ≠ "") && 0 < e.labelWidth && 0 < e.labelHeight

def isLoop (e : SizedEdge α) : Bool :=
  e.source == e.target

end SizedEdge

-- Gaps in pixels, used where a caller names none.
def Spacing.standard : Spacing α where
  node := 50
  rank := 50
  edge := 10
  groupPadding := 20
  groupHeader := 24
  emptyGroupWidth := 120
  emptyGroupHeight := 60
  selfLoop := 20

end LayeredDiagram
