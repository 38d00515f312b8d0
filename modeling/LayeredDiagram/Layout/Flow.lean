import LayeredDiagram.Layout.Transport
/-!
Difference constraints and the flows dual to them. An arc asks that its head lie at least its length
to the right of its tail, and may carry a cost per unit of distance. A flow that meets the demands of
the costs is improved along cycles of negative weight in its residual graph until there is none; the
shortest distances of the residual graph are then the placement of least cost, and among those the
one furthest to the left. To leave little to improve, the first flow comes from sending the demands
along shortest paths.
-/

namespace LayeredDiagram.Flow

structure Arc (κ : Type) where
  tail : κ
  head : κ
  -- Least distance from tail to head.
  length : Int
  -- Cost of a unit of distance from tail to head.
  cost : Nat
  flow : Nat

-- A step of the residual graph: along an arc, or against one that carries flow.
structure Step (κ : Type) where
  source : κ
  target : κ
  weight : Int
  -- The position of the arc.
  arc : Nat
  isForward : Bool

variable {κ : Type}

def residual (arcs : List (Arc κ)) : List (Step κ) :=
  arcs.zipIdx.flatMap fun (a, i) =>
    let forward : Step κ := ⟨a.tail, a.head, -a.length, i, true⟩
    if 0 < a.flow then [forward, ⟨a.head, a.tail, a.length, i, false⟩] else [forward]

-- The weight of the lightest walk found to a vertex, and the walk, last step first. Walks start at
-- any vertex with weight zero.
structure Label (κ : Type) where
  distance : Int
  walk : List (Step κ)

variable [BEq κ] [Hashable κ]

-- Labels of vertices; a vertex that is not listed is reached by the walk without steps.
abbrev Labels (κ : Type) [BEq κ] [Hashable κ] := Std.HashMap κ (Label κ)

def Labels.label (labels : Labels κ) (v : κ) : Label κ :=
  labels.getD v ⟨0, []⟩

-- The last part of a walk, from its latest visit of a vertex on.
def sinceVisit? (v : κ) : List (Step κ) → Option (List (Step κ))
  | [] => none
  | s :: walk => if s.source == v then some [s] else (sinceVisit? v walk).map (s :: ·)

-- A cycle of negative weight, and the labels at the moment it was found.
structure Improvement (κ : Type) [BEq κ] [Hashable κ] where
  cycle : List (Step κ)
  labels : Labels κ

-- Lightens labels along all steps in turn. A step back to a vertex on its own walk closes a cycle
-- of negative weight, which is returned instead; otherwise the labels come with whether any has
-- changed.
def relax : List (Step κ) → Labels κ → Bool → Except (Improvement κ) (Labels κ × Bool)
  | [], labels, changed => .ok (labels, changed)
  | s :: steps, labels, changed =>
    let source := labels.label s.source
    let distance := source.distance + s.weight
    if distance < (labels.label s.target).distance then
      let walk := s :: source.walk
      match sinceVisit? s.target walk with
      | some cycle => .error ⟨cycle, labels⟩
      | none => relax steps (labels.insert s.target ⟨distance, walk⟩) true
    else relax steps labels changed

-- Lightens labels until none changes. Walks repeat no vertex, so there are at most as many rounds
-- with a change as there are steps.
def settle (steps : List (Step κ)) : Nat → Labels κ → Except (Improvement κ) (Labels κ)
  | 0, labels => .ok labels
  | rounds + 1, labels =>
    match relax steps labels false with
    | .error found => .error found
    | .ok (labels, true) => settle steps rounds labels
    | .ok (labels, false) => .ok labels

-- Labels that no step of the residual graph lightens, found from the given ones, or a cycle of
-- negative weight.
def settled (arcs : List (Arc κ)) (labels : Labels κ) : Except (Improvement κ) (Labels κ) :=
  let steps := residual arcs
  settle steps (steps.length + 1) labels

-- The shortest distances of a residual graph, or a cycle of negative weight.
def shortest (arcs : List (Arc κ)) : Except (Improvement κ) (Labels κ) :=
  settled arcs ∅

-- The same distances, with walks that start anew.
def Labels.restart (labels : Labels κ) : Labels κ :=
  labels.map fun _ label => { label with walk := [] }

-- How much a cycle can carry, if there is a limit.
def capacity? (arcs : List (Arc κ)) (cycle : List (Step κ)) : Option Nat :=
  let limits := (cycle.filter (!·.isForward)).map fun s =>
    match arcs[s.arc]? with
    | some a => a.flow
    | none => 0
  limits.min?

-- Sends an amount of flow along steps.
def push (amount : Nat) (arcs : List (Arc κ)) (steps : List (Step κ)) : List (Arc κ) :=
  steps.foldl
    (fun arcs s => arcs.modify s.arc fun a =>
      { a with flow := if s.isForward then a.flow + amount else a.flow - amount })
    arcs

-- Sends flow along cycles of negative weight until there is none. The search for each cycle goes on
-- from the distances found before.
def improve : Nat → List (Arc κ) → Labels κ → List (Arc κ)
  | 0, arcs, _ => arcs
  | rounds + 1, arcs, labels =>
    match settled arcs labels with
    | .ok _ => arcs
    | .error found =>
      match capacity? arcs found.cycle with
      | none => arcs
      | some amount => improve rounds (push amount arcs found.cycle) found.labels.restart

-- The coordinate of each vertex given by labels: the distance with its sign changed.
def coordinate (labels : Labels κ) (v : κ) : Int :=
  -(labels.label v).distance

def totalCost (arcs : List (Arc κ)) (x : κ → Int) : Int :=
  arcs.foldr (fun a total => (a.cost : Int) * (x a.head - x a.tail) + total) 0

-- The flow that sends its cost over each arc; it meets all demands.
def plain (arcs : List (Arc κ)) : List (Arc κ) :=
  arcs.map fun a => { a with flow := a.cost }

def numbers (arcs : List (Arc κ)) : Std.HashMap κ Nat :=
  arcs.foldl (fun numbers a => (numbers.insertIfNew a.tail numbers.size).insertIfNew a.head
    (numbers.insertIfNew a.tail numbers.size).size) ∅

-- What flows into a vertex beyond what flows out, for amounts on all arcs.
def balance (amount : Arc κ → Int) (arcs : List (Arc κ)) : Std.HashMap κ Int :=
  arcs.foldl (fun b a =>
    let b := b.insert a.head (b.getD a.head 0 + amount a)
    b.insert a.tail (b.getD a.tail 0 - amount a)) ∅

-- Whether a flow meets the demands of the costs.
def meetsDemands (arcs : List (Arc κ)) : Bool :=
  (balance (fun a => (a.flow : Int) - a.cost) arcs).toList.all (·.2 == 0)

-- The flow that sends the demands along shortest paths.
def transported (arcs : List (Arc κ)) : List (Arc κ) :=
  match shortest (arcs.map fun a => { a with flow := 0 }) with
  | .error _ => arcs
  | .ok labels =>
    let numbers := numbers arcs
    let number (v : κ) : Nat := numbers.getD v 0
    let values (f : κ → Int) : Array Int :=
      numbers.fold (fun out v i => out.setIfInBounds i (f v)) (Array.replicate numbers.size 0)
    let demands := balance (fun a => (a.cost : Int)) arcs
    let network := Transport.Network.ofArcs numbers.size
      (arcs.map fun a => ⟨number a.tail, number a.head, -a.length⟩)
    let flow := network.transport (values fun v => -demands.getD v 0) (values fun v => (labels.label v).distance)
    arcs.zipWith (fun a f => { a with flow := f }) flow.toList

-- A flow that meets the demands of the costs.
def start (arcs : List (Arc κ)) : List (Arc κ) :=
  let found := transported arcs
  if meetsDemands found then found else plain arcs

-- The cost of the placement furthest to the left bounds how often a flow can be improved.
def roundBound (arcs : List (Arc κ)) : Nat :=
  match shortest (arcs.map fun a => { a with flow := 0 }) with
  | .ok labels =>
    let sent := arcs.foldr (fun a total => (a.flow : Int) * a.length + total) (0 : Int)
    (totalCost arcs (coordinate labels) - sent).toNat + 1
  | .error _ => 0

-- A flow of least weight that meets the demands of the costs.
def optimal (arcs : List (Arc κ)) : List (Arc κ) :=
  let first := start arcs
  improve (roundBound first) first ∅

-- The labels of the residual graph of an optimal flow.
def place (arcs : List (Arc κ)) : Labels κ :=
  match shortest (optimal arcs) with
  | .ok labels => labels
  | .error _ => ∅

end LayeredDiagram.Flow
