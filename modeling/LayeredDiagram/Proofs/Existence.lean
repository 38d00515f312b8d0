import LayeredDiagram.Layout.Graph
import LayeredDiagram.Proofs.Bands
import LayeredDiagram.Proofs.Constraints
import LayeredDiagram.Proofs.Improvement
/-!
Which graphs have a layout. The only reasons for an error are repeated ids and unknown names; without them the
horizontal constraints have no cycle, so that they can be kept, and everything that is looked up is found.
-/

namespace LayeredDiagram

open LayeredDiagram.Group

variable {α : Type} [Scalar α] {nodes : List (SizedNode α)} {edges : List (SizedEdge α)}
variable {groups : List Group} {entries : List Entry} {spacing : Spacing α} {place : String → Nat}
variable {a : Arrangement α}

-- The arcs of the horizontal constraints.
def Arrangement.arcs (spacing : Spacing α) (entries : List Entry) (a : Arrangement α) :
    List (Flow.Arc Variable) :=
  (Constraint.all spacing entries a.stock.segments a.layers).map Constraint.toArc

-- The bands of its ranks.
def Arrangement.bands (spacing : Spacing α) (a : Arrangement α) : List (RankBand α) :=
  RankBand.ofLayers spacing a.stock.span a.layers

theorem Arranged.acyclic (h : Arranged entries place a) (spacing : Spacing α) :
    Acyclic (Follows ((a.arcs spacing entries).map fun arc => (arc.tail, arc.head))) := by
  have := Constraint.acyclic_all h spacing
  rwa [Arrangement.arcs, List.map_map]

theorem Arranged.exists_band (h : Arranged entries place a) (spacing : Spacing α) {i : Item α}
    (hi : i ∈ a.stock.items) : ∃ b ∈ a.bands spacing, b.rank = i.rank := by
  have ⟨layer, _, hr, hi⟩ := h.exists_layer hi
  exact RankBand.exists_mem_ofLayers hr hi

namespace RawLayout

theorem ofGraph_of_error? (hn : nodes ≠ []) {e : LayoutError}
    (he : Register.error? nodes edges (forest [] groups) = some e) (sweeps : Nat) :
    ofGraph sweeps nodes edges spacing groups = .error e := by
  simp [ofGraph, hn, he]

theorem ofGraph_eq_solve (hn : nodes ≠ []) (hw : WellFormed nodes edges (forest [] groups)) (sweeps : Nat)
    (spacing : Spacing α) : ofGraph sweeps nodes edges spacing groups =
      .ok ((Solution.solve sweeps nodes edges spacing (forest [] groups)).toRaw nodes edges spacing.selfLoop) := by
  simp [ofGraph, hn, Register.error?_eq_none_iff.mpr hw]

theorem ofGraph_of_wellFormed (hn : nodes ≠ []) (hw : WellFormed nodes edges (forest [] groups)) (sweeps : Nat)
    (spacing : Spacing α) : ∃ raw, ofGraph sweeps nodes edges spacing groups = .ok raw :=
  ⟨_, ofGraph_eq_solve hn hw sweeps spacing⟩

end RawLayout

omit [Scalar α] in
theorem SizedEdge.filter_real_map {β : Type} {l : List β} {f : β → SizedEdge α} (h : ∀ r, (f r).kind = .real) :
    (l.map f).filter (fun e => e.kind = .real) = l.map f := by
  refine List.filter_eq_self.mpr fun e he => ?_
  obtain ⟨r, _, rfl⟩ := List.mem_map.mp he
  simp [h]

namespace SizedGraph

variable {g : SizedGraph α}

theorem layout_of_error? (hd : g.direction = "TB") (hn : g.nodes ≠ []) {e : LayoutError}
    (he : Register.error? g.nodes g.edges (forest [] g.groups) = some e) (sweeps : Nat) :
    g.layout sweeps = .error e := by
  simp [layout, hd, hn, RawLayout.ofGraph_of_error? hn he, Except.map]

theorem exists_layout (hd : g.direction = "TB") (hn : g.nodes ≠ [])
    (hw : WellFormed g.nodes g.edges (forest [] g.groups)) (sweeps : Nat) : ∃ p, g.layout sweeps = .ok p := by
  have ⟨raw, hr⟩ := RawLayout.ofGraph_of_wellFormed hn hw sweeps g.spacing
  simp [layout, hd, hn, hr, Except.map]

-- Without nodes there is nothing to check.
theorem exists_layout_of_nodes (hd : g.direction = "TB")
    (hw : g.nodes ≠ [] → WellFormed g.nodes g.edges (forest [] g.groups)) (sweeps : Nat) :
    ∃ p, g.layout sweeps = .ok p := by
  by_cases hn : g.nodes = []
  case pos => exact ⟨{ width := 0, height := 0 }, by simp [layout, hd, hn]⟩
  case neg => exact exists_layout hd hn (hw hn) sweeps

variable {sweeps : Nat} {p : PlacedGraph α}

-- A layout is made from a solution of a well formed graph.
theorem layout_eq (h : g.layout sweeps = .ok p) (hn : g.nodes ≠ []) :
    let s := Solution.solve sweeps g.nodes g.edges g.spacing (forest [] g.groups)
    let raw := s.toRaw g.nodes g.edges g.spacing.selfLoop
    WellFormed g.nodes g.edges (forest [] g.groups) ∧
    RawLayout.ofGraph sweeps g.nodes g.edges g.spacing g.groups = .ok raw ∧ p = g.assemble raw := by
  unfold layout at h
  split at h
  case isTrue => cases h
  case isFalse =>
    have hempty : ¬g.nodes.isEmpty := by simpa using hn
    rw [if_neg hempty] at h
    cases hr : RawLayout.ofGraph sweeps g.nodes g.edges g.spacing g.groups
    case error => simp [hr, Except.map] at h
    case ok raw =>
      rw [hr, Except.map, Except.ok.injEq] at h
      rw [RawLayout.ofGraph, if_neg hempty] at hr
      simp only at hr
      split at hr
      case h_1 => cases hr
      case h_2 he =>
        obtain rfl := Except.ok.inj hr
        exact ⟨Register.error?_eq_none_iff.mp he, rfl, h.symm⟩

theorem layout_of_nil (h : g.layout sweeps = .ok p) (hn : g.nodes = []) : p = { width := 0, height := 0 } := by
  unfold layout at h
  split at h
  case isTrue => cases h
  case isFalse => simpa [hn, eq_comm] using h

theorem isSome_lookup_nodeCenters {n : SizedNode α} (hn : n ∈ g.nodes) (sweeps : Nat) :
    ((Solution.solve sweeps g.nodes g.edges g.spacing (forest [] g.groups)).nodeCenters.lookup n.id).isSome := by
  have hi := Stock.mem_items_of_mem_nodeItems
    (mem_nodeItemsOf_iff.mpr ⟨n, hn, rfl⟩ : _ ∈ nodeItemsOf g.nodes g.edges g.spacing (forest [] g.groups))
  rw [List.lookup_isSome_iff]
  exact ⟨_, List.mem_filterMap.mpr ⟨_, hi, rfl⟩, by simp⟩

-- Every node has a centre.
theorem map_id_placeNodes (g : SizedGraph α) (sweeps : Nat) :
    (g.placeNodes ((Solution.solve sweeps g.nodes g.edges g.spacing (forest [] g.groups)).toRaw g.nodes g.edges
      g.spacing.selfLoop)).map (·.id) = g.nodes.map (·.id) := by
  rw [placeNodes, List.map_filterMap, ← List.filterMap_eq_map]
  refine List.filterMap_congr fun n hn => ?_
  obtain ⟨c, hc⟩ := Option.isSome_iff_exists.mp (isSome_lookup_nodeCenters hn sweeps)
  simp only [Solution.toRaw, hc, Option.map_some, Function.comp_apply]

omit [Scalar α] in
theorem map_fst_realEdges (g : SizedGraph α) : g.realEdges.map (·.1) = g.edges.filter fun e => e.kind = .real := by
  conv_rhs => rw [← List.zipIdx_map_fst 0 g.edges, List.filter_map]
  rfl

-- All nodes and all real edges are drawn, in the order of the graph.
theorem layout_lists (h : g.layout sweeps = .ok p) :
    p.nodes.map (·.id) = g.nodes.map (·.id) ∧
    (g.nodes ≠ [] → p.edges.map (fun d => (d.source, d.target, d.label)) =
      (g.edges.filter fun e => e.kind = .real).map fun e => (e.source, e.target, e.label)) := by
  by_cases hn : g.nodes = []
  case pos =>
    obtain rfl := layout_of_nil h hn
    exact ⟨by simp [hn], fun hne => absurd hn hne⟩
  case neg =>
    obtain ⟨_, _, rfl⟩ := layout_eq h hn
    rw [← map_fst_realEdges]
    simp only [assemble, onCanvas, placeEdges, List.map_map]
    exact ⟨map_id_placeNodes g sweeps, fun _ => rfl⟩

end SizedGraph

end LayeredDiagram
