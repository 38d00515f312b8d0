import LayeredDiagram.Numeric.Scalar
/-!
An order of the vertices of a weighted digraph in which few arcs point backwards: vertices without
outgoing weight go to the back, vertices without incoming weight to the front, and of the others the
one with the largest outgoing minus incoming weight goes to the front. Ties go to the vertex that is
listed first.
-/

namespace LayeredDiagram.Feedback

variable {κ α : Type} [DecidableEq κ] [Scalar α]

structure Arc (κ α : Type) where
  source : κ
  target : κ
  weight : α

-- Adds an arc, or its weight to the arc with the same ends.
def addArc (a : Arc κ α) : List (Arc κ α) → List (Arc κ α)
  | [] => [a]
  | b :: bs =>
    if b.source = a.source ∧ b.target = a.target then { b with weight := b.weight + a.weight } :: bs
    else b :: addArc a bs

-- One arc for each pair of ends, with the weights of parallel arcs added up.
def merge (arcs : List (Arc κ α)) : List (Arc κ α) :=
  arcs.foldl (fun merged a => addArc a merged) []

-- A vertex that has no place yet, with the weight of its arcs from and to such vertices.
structure Pending (κ α : Type) where
  vertex : κ
  outgoing : α
  incoming : α

def weight? (arcs : List (Arc κ α)) (source target : κ) : Option α :=
  (arcs.find? fun a => a.source = source ∧ a.target = target).map (·.weight)

def Pending.all (arcs : List (Arc κ α)) (vertices : List κ) : List (Pending κ α) :=
  vertices.map fun v =>
    { vertex := v
      outgoing := Scalar.sum ((arcs.filter (·.source = v)).map (·.weight))
      incoming := Scalar.sum ((arcs.filter (·.target = v)).map (·.weight)) }

-- Takes a vertex out; the others lose the weight of their arcs from and to it.
def Pending.remove (arcs : List (Arc κ α)) (v : κ) (ps : List (Pending κ α)) : List (Pending κ α) :=
  (ps.filter (·.vertex ≠ v)).map fun p =>
    { vertex := p.vertex
      outgoing := match weight? arcs p.vertex v with
        | some w => p.outgoing - w
        | none => p.outgoing
      incoming := match weight? arcs v p.vertex with
        | some w => p.incoming - w
        | none => p.incoming }

-- Goes once through the vertices and takes out those that pass a test when their turn comes.
def peel (arcs : List (Arc κ α)) (test : Pending κ α → Bool) :
    List κ → List (Pending κ α) → List κ × List (Pending κ α)
  | [], ps => ([], ps)
  | v :: vs, ps =>
    match ps.find? (·.vertex = v) with
    | some p =>
      if test p then
        let rest := peel arcs test vs (Pending.remove arcs v ps)
        (v :: rest.1, rest.2)
      else peel arcs test vs ps
    | none => peel arcs test vs ps

-- The vertices placed from the front and from the back, and those left.
structure State (κ α : Type) where
  front : List κ
  -- The last vertex first.
  back : List κ
  pending : List (Pending κ α)

def isSink (p : Pending κ α) : Bool :=
  p.outgoing ≤ 1e-9

def isSource (p : Pending κ α) : Bool :=
  p.incoming ≤ 1e-9

-- Takes out sinks and sources until a round finds none; each round but the last takes out one, so
-- as many rounds as vertices and one more are enough.
def settle (arcs : List (Arc κ α)) (vertices : List κ) : Nat → State κ α → State κ α
  | 0, s => s
  | rounds + 1, s =>
    let sinks := peel arcs isSink vertices s.pending
    let sources := peel arcs isSource vertices sinks.2
    if sinks.1.isEmpty && sources.1.isEmpty then s
    else
      settle arcs vertices rounds
        { front := s.front ++ sources.1, back := s.back ++ sinks.1, pending := sources.2 }

def surplus (p : Pending κ α) : α :=
  p.outgoing - p.incoming

-- The vertex with the largest surplus, the first one on a tie.
def best? : List (Pending κ α) → Option (Pending κ α)
  | [] => none
  | p :: ps => some (ps.foldl (fun b q => if surplus b < surplus q then q else b) p)

-- Alternates between settling and moving the best vertex to the front.
def run (arcs : List (Arc κ α)) (vertices : List κ) : Nat → State κ α → State κ α
  | 0, s => s
  | rounds + 1, s =>
    let s := settle arcs vertices (vertices.length + 1) s
    match best? s.pending with
    | none => s
    | some p =>
      run arcs vertices rounds
        { s with front := s.front ++ [p.vertex], pending := Pending.remove arcs p.vertex s.pending }

-- The vertices in an order with little backward weight. Arcs from a vertex to itself are not to be
-- given.
def order (vertices : List κ) (arcs : List (Arc κ α)) : List κ :=
  let merged := merge arcs
  let final := run merged vertices (vertices.length + 1) ⟨[], [], Pending.all merged vertices⟩
  final.front ++ final.back.reverse

end LayeredDiagram.Feedback
