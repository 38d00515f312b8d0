import Std.Data.HashMap
import Std.Data.TreeMap
/-!
Transport along arcs without limits. Every vertex has a surplus, which may be negative, and surplus is sent
to where it is lacking. What is sent goes along the shortest path of the residual graph, in which an arc that
carries flow can also be passed backwards. Every vertex has a price such that no step of the residual graph
has a negative reduced length, so that Dijkstra's search finds the path.
-/

namespace LayeredDiagram.Transport

structure Arc where
  tail : Nat
  head : Nat
  length : Int

-- Arcs with the positions of those that leave and of those that enter each vertex.
structure Network where
  arcs : Array Arc
  leaving : Array (List Nat)
  entering : Array (List Nat)

structure State where
  flow : Array Nat
  surplus : Array Int
  price : Array Int

-- A step along an arc or against it.
structure Step where
  arc : Nat
  isForward : Bool

-- A vertex that a search has reached: its distance, and the last step to it.
structure Visit where
  distance : Int
  step : Option Step

abbrev Visits := Std.HashMap Nat Visit

-- Steps to vertices in the order of their distances.
abbrev Frontier :=
  Std.TreeMap (Int × Nat) (Option Step) fun a b => (compare a.1 b.1).then (compare a.2 b.2)

namespace Network

-- The network of some arcs between vertices below a number.
def ofArcs (size : Nat) (arcs : List Arc) : Network :=
  let lists (vertex : Arc → Nat) : Array (List Nat) :=
    arcs.zipIdx.foldl (fun out (a, i) => out.modify (vertex a) (i :: ·)) (Array.replicate size [])
  { arcs := arcs.toArray, leaving := lists Arc.tail, entering := lists Arc.head }

-- The steps that leave a vertex.
def steps (n : Network) (s : State) (vertex : Nat) : List Step :=
  (n.leaving.getD vertex []).map (⟨·, true⟩)
    ++ ((n.entering.getD vertex []).filter fun i => 0 < s.flow.getD i 0).map (⟨·, false⟩)

def source (n : Network) (step : Step) : Nat :=
  n.arcs[step.arc]?.elim 0 fun a => if step.isForward then a.tail else a.head

def target (n : Network) (step : Step) : Nat :=
  n.arcs[step.arc]?.elim 0 fun a => if step.isForward then a.head else a.tail

-- The length of a step, less what the price falls by on the way.
def reducedLength (n : Network) (s : State) (step : Step) : Int :=
  n.arcs[step.arc]?.elim 0 fun a =>
    let along := a.length + s.price.getD a.tail 0 - s.price.getD a.head 0
    if step.isForward then along else -along

-- Searches for the nearest vertex with a negative surplus.
def search (n : Network) (s : State) : Nat → Frontier → Visits → Option (Nat × Visits)
  | 0, _, _ => none
  | fuel + 1, frontier, visits =>
    match frontier.minEntry? with
    | none => none
    | some ((distance, vertex), step) =>
      let frontier := frontier.erase (distance, vertex)
      if visits.contains vertex then search n s fuel frontier visits
      else
        let visits := visits.insert vertex ⟨distance, step⟩
        if s.surplus.getD vertex 0 < 0 then some (vertex, visits)
        else
          let reached := (n.steps s vertex).foldl (fun frontier step =>
            let target := n.target step
            if visits.contains target then frontier
            else frontier.insert (distance + n.reducedLength s step, target) (some step)) frontier
          search n s fuel reached visits

-- The steps to a vertex that a search has reached, in front of further ones.
def pathTo (n : Network) (visits : Visits) : Nat → Nat → List Step → List Step
  | 0, _, path => path
  | fuel + 1, vertex, path =>
    match (visits[vertex]?).bind Visit.step with
    | some step => pathTo n visits fuel (n.source step) (step :: path)
    | none => path

-- How much can be sent along a path from one vertex to another.
def amount (s : State) (start stop : Nat) (path : List Step) : Nat :=
  let limits := (path.filter (!·.isForward)).map fun step => s.flow.getD step.arc 0
  limits.foldl min (min (s.surplus.getD start 0) (-s.surplus.getD stop 0)).toNat

-- Sends an amount along a path, and lowers the prices of the vertices nearer than its end.
def send (s : State) (start stop : Nat) (visits : Visits) (path : List Step) : State :=
  let sent := amount s start stop path
  let total := (visits[stop]?).elim 0 Visit.distance
  { flow := path.foldl (fun flow step =>
      flow.modify step.arc fun f => if step.isForward then f + sent else f - sent) s.flow
    surplus := (s.surplus.modify start (· - sent)).modify stop (· + sent)
    price := visits.fold (fun price vertex visit => price.modify vertex (· + visit.distance - total)) s.price }

-- Sends the surpluses of some vertices, each until nothing is left of it or no path is found.
def sendAll (n : Network) : Nat → List Nat → State → State
  | 0, _, s => s
  | _, [], s => s
  | fuel + 1, v :: rest, s =>
    if s.surplus.getD v 0 ≤ 0 then sendAll n fuel rest s
    else
      match n.search s (2 * n.arcs.size + 2) (Std.TreeMap.empty.insert (0, v) none) ∅ with
      | none => sendAll n fuel rest s
      | some (stop, visits) =>
        sendAll n fuel (v :: rest) (send s v stop visits (n.pathTo visits visits.size stop []))

-- The flow that sends all surpluses, if there are prices without negative reduced lengths to begin
-- with.
def transport (n : Network) (surplus price : Array Int) : Array Nat :=
  let total := (surplus.map fun x => x.toNat).foldl (· + ·) 0
  let start : State := { flow := Array.replicate n.arcs.size 0, surplus, price }
  (n.sendAll (total + surplus.size) (List.range surplus.size) start).flow

end Network

end LayeredDiagram.Transport
