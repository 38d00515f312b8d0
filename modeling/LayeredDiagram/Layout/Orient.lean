import LayeredDiagram.Graph.Sized
import LayeredDiagram.Layout.Feedback
/-!
Every edge gets an upper and a lower end such that no cycle arises. Ordering edges come first and
are turned round only against earlier ones; then each real edge takes the direction of the feedback
order, unless that would close a cycle.
-/

namespace LayeredDiagram

variable {κ α : Type} [DecidableEq κ] [Scalar α]

-- Arcs of a digraph, and which vertices they lead to.
namespace Reach

-- Adds the ends of arcs out of a set until nothing new is found; each step but the last uses an arc
-- more, so as many steps as arcs are enough.
def grow (arcs : List (κ × κ)) : Nat → List κ → List κ
  | 0, found => found
  | steps + 1, found =>
    let next := ((arcs.filter fun a => a.1 ∈ found ∧ a.2 ∉ found).map (·.2)).eraseDups
    if next.isEmpty then found else grow arcs steps (found ++ next)

-- Whether a path, of length zero or more, leads from one vertex to another.
def leads (arcs : List (κ × κ)) (source target : κ) : Bool :=
  target ∈ grow arcs arcs.length [source]

end Reach

-- An edge with its two ends in drawing order.
structure OrientedEdge (κ : Type) where
  -- The position of the edge in the input.
  index : Nat
  kind : EdgeKind
  upper : κ
  lower : κ
  -- Least number of ranks between the two ends.
  length : Nat
  -- Whether the upper end is the target.
  isReversed : Bool

namespace OrientedEdge

def arc (e : OrientedEdge κ) : κ × κ :=
  (e.upper, e.lower)

-- An edge before its ends are put in order.
structure Request (κ : Type) where
  index : Nat
  kind : EdgeKind
  source : κ
  target : κ
  length : Nat

-- Adds an edge in the wished direction, or in the other one if the wished one closes a cycle.
def add (prefersReversed : Request κ → Bool) (done : List (OrientedEdge κ)) (r : Request κ) :
    List (OrientedEdge κ) :=
  let wished := if prefersReversed r then (r.target, r.source) else (r.source, r.target)
  let arcs := done.map arc
  let (upper, lower) :=
    if Reach.leads arcs wished.2 wished.1 then (wished.2, wished.1) else wished
  done ++ [{ index := r.index, kind := r.kind, upper, lower, length := r.length,
             isReversed := upper ≠ r.source }]

-- Ranks that an edge spans at least: one more if it carries a label.
def requiredLength (e : SizedEdge α) : Nat :=
  let least := if e.kind = .real ∧ e.hasLabel then 2 else 1
  max least e.minlen.toNat

def requests (kind : EdgeKind) (edges : List (SizedEdge α)) : List (Request String) :=
  (edges.zipIdx.filter fun (e, _) => e.kind = kind && !e.isLoop).map fun (e, index) =>
    { index, kind, source := e.source, target := e.target, length := requiredLength e }

-- The feedback order of the nodes under all edges between different nodes.
def feedbackOrder (nodes : List String) (edges : List (SizedEdge α)) : List String :=
  Feedback.order nodes ((edges.filter (!·.isLoop)).map fun e => ⟨e.source, e.target, e.weight⟩)

-- All edges between different nodes, each with its ends in drawing order.
def all (nodes : List String) (edges : List (SizedEdge α)) : List (OrientedEdge String) :=
  let order := feedbackOrder nodes edges
  let backwards (r : Request String) : Bool := order.idxOf r.target < order.idxOf r.source
  let first := (requests .ordering edges).foldl (add fun _ => false) []
  (requests .real edges).foldl (add backwards) first

end OrientedEdge

end LayeredDiagram
