import LayeredDiagram.Layout.Orient
/-!
Ranks. Every node goes as many ranks down as the longest chain of edges above it requires; nodes with
edges below and none above then move down next to the nodes they lead to. The topmost rank is zero.
-/

namespace LayeredDiagram

variable {κ : Type} [DecidableEq κ]

abbrev Ranking (κ : Type) := List (κ × Nat)

namespace Ranking

def rank (ranks : Ranking κ) (v : κ) : Nat :=
  (ranks.lookup v).getD 0

-- The rank that the edges from above require of a node.
def required (edges : List (OrientedEdge κ)) (ranks : Ranking κ) (v : κ) : Nat :=
  ((edges.filter (·.lower = v)).map fun e => ranks.rank e.upper + e.length).foldl max 0

-- Applies the requirements over and over; on `n` nodes they are met after `n` rounds.
def relax (edges : List (OrientedEdge κ)) : Nat → Ranking κ → Ranking κ
  | 0, ranks => ranks
  | rounds + 1, ranks =>
    let next := ranks.map fun (v, _) => (v, required edges ranks v)
    if next = ranks then ranks else relax edges rounds next

-- The length of the longest chain above each node.
def longest (nodes : List κ) (edges : List (OrientedEdge κ)) : Ranking κ :=
  relax edges (nodes.length + 1) (nodes.map fun v => (v, 0))

-- Whether a node has edges below and none above.
def isTop (edges : List (OrientedEdge κ)) (v : κ) : Bool :=
  edges.all (·.lower ≠ v) && edges.any (·.upper = v)

-- The lowest rank from which a node still reaches the nodes below it.
def lowered (edges : List (OrientedEdge κ)) (ranks : Ranking κ) (v : κ) : Nat :=
  let limits := (edges.filter (·.upper = v)).map fun e => ranks.rank e.lower - e.length
  limits.min?.getD (ranks.rank v)

-- Moves each top node down next to the nodes below it.
def pullDown (edges : List (OrientedEdge κ)) (ranks : Ranking κ) : Ranking κ :=
  ranks.map fun (v, r) => (v, if isTop edges v then lowered edges ranks v else r)

-- Counts ranks from the topmost one.
def fromZero (ranks : Ranking κ) : Ranking κ :=
  let least := ((ranks.map (·.2)).min?).getD 0
  ranks.map fun (v, r) => (v, r - least)

def ofEdges (nodes : List κ) (edges : List (OrientedEdge κ)) : Ranking κ :=
  fromZero (pullDown edges (longest nodes edges))

end Ranking

end LayeredDiagram
