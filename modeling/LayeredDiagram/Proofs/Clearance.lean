import LayeredDiagram.Proofs.Balancing
import LayeredDiagram.Proofs.Columns
import LayeredDiagram.Proofs.LayerOrder
/-!
Routes stay clear of boxes, up to the tolerance by which their points may leave their columns. A row of nodes below one
another, each of them half as far from a column as the one before it, shows that layouts without gaps allow no more.
-/

namespace LayeredDiagram

open LayeredDiagram.Group Route

variable {g : SizedGraph Rat} {place : String → Nat} {s : Solution Rat} {p : PlacedGraph Rat}
variable {b : Bounds Rat} {k sweeps : Nat} {q : Point Rat} {d depth : Rat}

-- A box kept free for a label stands in the room of a node, or in that of a bend of its own edge.
theorem Reserved.exists_room {r : Nat} (h : Reserved g s r b) (hs : Solved g place s) (hr : r ≠ k) :
    ∃ j ∈ s.stock.items, b.Within (s.room j) ∧ ∀ rank, j.slot ≠ .bend k rank := by
  cases h
  case bend i rank hi hslot hw => exact ⟨i, hi, hw, fun rank => by simp [hslot, hr]⟩
  case loop l n _ _ hn _ _ _ hw => exact ⟨_, hs.itemOf_mem hn, hw, fun rank => by simp [SizedGraph.itemOf]⟩

namespace Bounds

variable {dx dy : Rat}

theorem interior_shrink_shift_iff :
    ((b.shift dx dy).shrink depth).Interior (q.shift dx dy) ↔ (b.shrink depth).Interior q := by
  simp only [Interior, shrink, shift, Point.shift]
  refine and_congr ?_ (and_congr ?_ (and_congr ?_ ?_)) <;> constructor <;> intro <;> linarith

end Bounds

namespace SizedGraph

-- No route between different nodes passes what is inside a node, or inside the room for the label of another edge,
-- further in than a depth.
def RoutesAvoidBoxes (g : SizedGraph Rat) (p : PlacedGraph Rat) (depth : Rat) : Prop :=
  ∀ x ∈ g.realEdges.zip p.edges, x.1.1.source ≠ x.1.1.target → ∀ q, Passes x.2.points q →
    (∀ n ∈ p.nodes, ¬(n.bounds.shrink depth).Interior q) ∧
    ∀ y ∈ g.realEdges.zip p.edges, y.1.2 ≠ x.1.2 → ∀ anchor, y.2.labelAnchor = some anchor →
      ¬((y.1.1.labelBounds anchor).shrink depth).Interior q

end SizedGraph

namespace Drawn

variable {dx dy : Rat} (h : Drawn g s dx dy p)
include h

theorem labelAnchor_eq {x : (SizedEdge Rat × Nat) × PlacedEdge Rat} (hx : x ∈ g.realEdges.zip p.edges) :
    x.2.labelAnchor = ((g.rawOf s).labelAnchors.lookup x.1.2).map (Point.shift dx dy) := by
  rw [h.edges, SizedGraph.placeEdges, List.map_map, ← List.map_prod_left_eq_zip, List.mem_map] at hx
  obtain ⟨y, hy, rfl⟩ := hx
  rfl

theorem map_ends : p.edges.map (fun d => (d.source, d.target)) = g.realEdges.map fun x => (x.1.source, x.1.target) := by
  rw [h.edges, SizedGraph.placeEdges, List.map_map, List.map_map]
  rfl

theorem routesAvoidBoxes (hs : Solved g place s) (hl : g.HasLowLoops) (hn : g.HasThickNodes)
    (hd : g.spacing.Clearance (forest [] g.groups) d) (hd' : d ≤ 1 / 2000) (hdepth : 0 ≤ depth)
    (hle : 7 * tolerance ≤ d + depth) : g.RoutesAvoidBoxes p depth := by
  intro x hx hne q hq
  obtain ⟨hxm, hpoints⟩ := h.points_eq hx
  have hk : x.1.1.kind = .real := by simpa using (List.mem_filter.mp hxm).right
  obtain ⟨upper, lower, c, hc⟩ := hs.exists_chainOf (SizedGraph.getElem?_of_mem_realEdges hxm) hk hne
  rw [hpoints] at hq
  obtain ⟨q, rfl, hroute⟩ := hq.exists_of_map_shift
  refine ⟨fun n hnm => ?node, fun y hy hyx anchor ha => ?label⟩
  case node =>
    obtain ⟨m, hm, _, hb⟩ := h.exists_node hnm
    rw [hb, Bounds.interior_shrink_shift_iff]
    exact hs.not_interior_of_passes hc hd (hs.itemOf_mem hm) hn hd' hdepth hle (hs.nodeBounds_within_room hm)
      (by simp [SizedGraph.itemOf]) hroute
  case label =>
    rw [h.labelAnchor_eq hy] at ha
    obtain ⟨anchor, hlookup, rfl⟩ := Option.map_eq_some_iff.mp ha
    have hr := hs.reserved_of_lookup hl (SizedGraph.getElem?_of_mem_realEdges (h.points_eq hy).left) hlookup
    obtain ⟨j, hj, hw, hslot⟩ := hr.exists_room hs hyx
    rw [SizedEdge.labelBounds, ← Bounds.shift_ofBox_around, Bounds.interior_shrink_shift_iff]
    exact hs.not_interior_of_passes hc hd hj hn hd' hdepth hle hw hslot hroute

end Drawn

theorem IsMeasure.le_of_pos (h : IsMeasure d) (hd : 0 < d) : 1 / 10000000 ≤ d := by
  obtain ⟨n, hn⟩ := h.decimals
  have hpos : (0 : Rat) < n := by
    rw [← hn]
    positivity
  have : (1 : Rat) ≤ n := by exact_mod_cast hpos
  linarith

namespace SizedGraph

-- Where routes leave their columns within the tolerance, they touch what is next to them by less than a
-- hundred-millionth. At a distance of the bounds of groups from what is outside, they do not even do that.
theorem layout_routes_avoid_boxes (h : g.layout sweeps = .ok p) (hm : Measured g.nodes g.edges g.spacing)
    (hn : g.HasThickNodes) (he : 1 / 1000 ≤ g.spacing.edge) (hl : g.HasLowLoops) :
    (g.nodes ≠ [] → p.edges.map (fun d => (d.source, d.target)) =
      g.realEdges.map fun x => (x.1.source, x.1.target)) ∧
    g.RoutesAvoidBoxes p (1 / 100000000) ∧
    (g.groups = [] ∨ 0 < g.spacing.node ∨ 0 < g.spacing.groupPadding → g.RoutesAvoidBoxes p 0) := by
  rcases exists_drawn_of_layout h hm with ⟨hnil, rfl⟩ | ⟨place, s, dx, dy, hs, hd⟩
  · exact ⟨fun hne => absurd hnil hne, by simp [RoutesAvoidBoxes], by simp [RoutesAvoidBoxes]⟩
  · have hnode := hm.spacing g.spacing.node (by simp [Spacing.lengths])
    have hpad := hm.spacing g.spacing.groupPadding (by simp [Spacing.lengths])
    refine ⟨fun _ => hd.map_ends, ?always, fun hgap => ?apart⟩
    case always =>
      have hc : g.spacing.Clearance (forest [] g.groups) 0 :=
        ⟨by linarith, fun _ => add_nonneg hnode.nonneg hpad.nonneg⟩
      exact hd.routesAvoidBoxes hs hl hn hc (by norm_num) (by norm_num) (by rw [tolerance_eq]; norm_num)
    case apart =>
      have hc : g.spacing.Clearance (forest [] g.groups) (1 / 10000000) := by
        refine ⟨by linarith, fun hne => ?_⟩
        rcases hgap with hnil | hpos | hpos
        · exact absurd (by rw [hnil, forest_nil]) hne
        · linarith [hnode.le_of_pos hpos, hpad.nonneg]
        · linarith [hpad.le_of_pos hpos, hnode.nonneg]
      exact hd.routesAvoidBoxes hs hl hn hc (by norm_num) le_rfl (by rw [tolerance_eq]; norm_num)

theorem layout_routes_avoid_boxes_nestedGroups : ∃ p, Arrangement.nestedGroups.layout 4 = .ok p ∧
    Measured Arrangement.nestedGroups.nodes Arrangement.nestedGroups.edges Arrangement.nestedGroups.spacing ∧
    Arrangement.nestedGroups.HasThickNodes ∧ 1 / 1000 ≤ Arrangement.nestedGroups.spacing.edge ∧
    Arrangement.nestedGroups.HasLowLoops ∧ 0 < Arrangement.nestedGroups.spacing.node ∧
    Arrangement.nestedGroups.RoutesAvoidBoxes p 0 := by
  obtain ⟨p, hp⟩ := Arrangement.exists_layout_nestedGroups
  have hn : Arrangement.nestedGroups.HasThickNodes := by
    simp only [HasThickNodes, Arrangement.nestedGroups]
    norm_num
  have he : 1 / 1000 ≤ Arrangement.nestedGroups.spacing.edge := by
    simp only [Arrangement.nestedGroups, Spacing.standard]
    norm_num
  have hl : Arrangement.nestedGroups.HasLowLoops := by
    unfold HasLowLoops
    decide
  have hgap : 0 < Arrangement.nestedGroups.spacing.node := by
    simp only [Arrangement.nestedGroups, Spacing.standard]
    norm_num
  obtain ⟨_, _, hapart⟩ := layout_routes_avoid_boxes hp Arrangement.measured_nestedGroups hn he hl
  exact ⟨p, hp, Arrangement.measured_nestedGroups, hn, he, hl, hgap, hapart (.inr (.inl hgap))⟩

end SizedGraph

namespace Drifting

def steps : List String :=
  ["a", "b", "c", "d", "e", "f", "g", "h", "i", "j", "k", "l", "m", "n", "o", "p", "q", "r", "s", "t", "u", "v", "w",
    "x"]

-- The edge that runs beside the wide node.
def bent : SizedEdge Rat :=
  { SizedEdge.plain "x" "end" .real with minlen := 2 }

-- A long row of nodes, each below the one before it, that leads to an edge beside a wide node. The first node of the
-- row is drawn a little to the left, and every other one only half as far as the one before it.
def graph : SizedGraph Rat where
  nodes := (["above", "beside"] ++ steps ++ ["end"]).map (fun name => ⟨name, 1 / 1000, 1, none, none⟩) ++
    [⟨"wide", 1 / 50, 1, none, none⟩]
  edges := [
    { SizedEdge.plain "above" "a" .real with weight := 3, minlen := 2 },
    { SizedEdge.plain "beside" "a" .real with weight := 4 }] ++
    (steps.zip steps.tail).map (fun (source, target) => SizedEdge.plain source target .real) ++ [
    { SizedEdge.plain "wide" "end" .real with weight := 1 / 2 },
    bent]
  groups := [{ id := "box", members := ["wide"] }]
  spacing := ⟨0, 1, 1 / 1000, 0, 0, 0, 0, 0⟩
  margin := ⟨0, 0⟩

section Items

def nodeItem (id : String) (rank : Nat) : Item Rat :=
  ⟨.node id, rank, 1 / 1000, 1, .node, [], 0⟩

def bendItem (edge rank : Nat) : Item Rat :=
  ⟨.bend edge rank, rank, 0, 0, .dummy, [], 0⟩

def above : Item Rat :=
  nodeItem "above" 0

def beside : Item Rat :=
  nodeItem "beside" 1

def row : List (Item Rat) :=
  steps.zipIdx.map fun (name, k) => nodeItem name (k + 2)

def wide : Item Rat :=
  ⟨.node "wide", 26, 1 / 50, 1, .node, ["box"], 0⟩

def last : Item Rat :=
  nodeItem "end" 27

def bentChain : Chain Rat :=
  ⟨26, 1, [nodeItem "x" 25, bendItem 26 26, last], false⟩

def stock : Stock Rat where
  entries := [⟨"box", "", ["wide"], [], ["box"]⟩]
  items := [above, beside] ++ row ++ [last, wide, bendItem 0 1, bendItem 26 26]
  chains := [
    ⟨0, 3, [above, bendItem 0 1, nodeItem "a" 2], false⟩,
    ⟨1, 4, [beside, nodeItem "a" 2], false⟩] ++
    (row.zip row.tail).zipIdx.map (fun ((i, j), k) => ⟨k + 2, 1, [i, j], false⟩) ++ [
    ⟨25, 1 / 2, [wide, last], false⟩,
    bentChain]
  loops := []

set_option maxRecDepth 100000

theorem stock_eq : Stock.ofNodes graph.nodes graph.edges graph.spacing (forest [] graph.groups) = stock := by
  decide +kernel

-- The nodes that move before the last two.
abbrev upTo : List (Item Rat) :=
  [above] ++ [beside] ++ [nodeItem "a" 2] ++ row.tail

-- No edges cross, and no rank needs another order.
theorem stock_spec : forest [] graph.groups = stock.entries ∧ Layers.depth stock.entries = 1 ∧
    Layers.crossings stock.segments stock.layers = 0 ∧
    (∀ layer ∈ stock.layers, (∀ i ∈ layer, i.path = []) ∨ layer = [wide, bendItem 26 26]) ∧
    stock.layers.flatten.filter (·.kind = .node) = upTo ++ [wide] ++ [last] ∧
    (∀ i ∈ stock.items, i.slot = .node "wide" → i = wide) ∧
    ∀ c ∈ stock.chains, c.edge = 26 → c = bentChain := by
  decide +kernel

abbrev bands : List (RankBand Rat) :=
  RankBand.ofLayers graph.spacing stock.span stock.layers

theorem bands_spec : RankBand.center? bands 25 = some (101 / 2) ∧ RankBand.center? bands 26 = some (105 / 2) ∧
    RankBand.center? bands 27 = some (109 / 2) ∧ RankBand.midline bands 25 = 103 / 2 ∧
    RankBand.midline bands 26 = 107 / 2 := by
  decide +kernel

end Items

section Arcs

set_option maxRecDepth 100000

def arcs : List (Flow.Arc Variable) :=
  (Constraint.all graph.spacing stock.entries stock.segments stock.layers).map Constraint.toArc

-- A placement of least cost, in hundredths.
def position : Variable → Int
  | .item (.node "beside") => 1
  | .item (.node "wide") => 1
  | .helper 2 => 1
  | .helper 26 => 1
  | .left _ => 0
  | _ => 2

-- What is sent over each arc, which is its cost but where the placement leaves slack.
def amount (a : Flow.Arc Variable) : Nat :=
  match a.tail, a.head with
  | .item (.node "beside"), .item (.bend 0 1) => 32
  | .helper 1, .item (.bend 0 1) => 16
  | .helper 1, .item (.node "a") => 80
  | .helper 2, .item (.node "beside") => 64
  | .helper 2, .item (.node "a") => 0
  | .left _, .item _ => 1
  | .item (.node "wide"), .right _ => 5
  | .right _, .item _ => 4
  | .helper 26, .item (.node "wide") => 8
  | .helper 26, .item (.node "end") => 0
  | .helper 28, .item (.bend 26 26) => 12
  | .helper 28, .item (.node "end") => 20
  | .left _, .right _ => 0
  | _, _ => a.cost

-- Everything but what is to the left of nodes only.
def tied : List Variable :=
  [.item (.node "beside"), .item (.bend 0 1), .helper 1] ++
    steps.zipIdx.flatMap (fun (name, k) => [.item (.node name), .helper (if k = 23 then 27 else k + 3)]) ++
    [.item (.bend 26 26), .helper 28, .item (.node "end"), .helper 28, .item (.bend 26 26), .right "box",
      .item (.node "wide"), .left "box"]

theorem slots_spec : (Slot.node "a" :: row.tail.map (·.slot)).Nodup ∧
    (∀ slot ∈ row.tail.map (·.slot) ++ [.bend 26 26], .item slot ∈ tied ∧ position (.item slot) = 2 ∧
      ∀ i ∈ [above] ++ [beside] ++ [nodeItem "a" 2], Variable.item slot ≠ .item i.slot) ∧
    .bend 26 26 ∉ row.tail.map (·.slot) ∧
    ∀ v ∈ [.item wide.slot, .right "box", .item last.slot, .item (.bend 26 26)], v ∈ tied ∧
      ∀ i ∈ upTo, v ≠ .item i.slot := by
  decide +kernel

-- The flow leaves no slack at the placement.
theorem flow_spec : (∀ a ∈ arcs, ∀ v ∈ [a.tail, a.head],
      Flow.total (fun b => ((amount b : Int) - b.cost) * Flow.atVertex v b) arcs = 0) ∧
    (∀ a ∈ arcs, a.length ≤ position a.head - position a.tail) ∧
    (∀ a ∈ arcs, 0 < amount a → position a.head - position a.tail = a.length) ∧
    tied.IsChain (Flow.Tied arcs amount) := by
  decide +kernel

-- Two nodes are held on their right, and two others are free, as are those of the row.
theorem moves_spec :
    ((∃ b ∈ arcs, b.tail = .item beside.slot ∧ b.head = .item (.bend 0 1) ∧ b.length = 1) ∧
      Abscissae.neighbours stock.segments beside = [(.node "a", 4)]) ∧
    ((∃ b ∈ arcs, b.tail = .item wide.slot ∧ b.head = .right "box" ∧ b.length = 1) ∧
      Abscissae.neighbours stock.segments wide = [(last.slot, 1 / 2)]) ∧
    (Abscissae.Free arcs (.item (.node "a")) ∧ Abscissae.neighbours stock.segments (nodeItem "a" 2) =
      [(.bend 0 1, 3), (.node "beside", 4), (.node "b", 1)]) ∧
    (Abscissae.Free arcs (.item last.slot) ∧
      Abscissae.neighbours stock.segments last = [(wide.slot, 1 / 2), (.bend 26 26, 1)]) ∧
    Abscissae.Relay arcs stock.segments (.bend 26 26) (.node "a") row.tail := by
  decide +kernel

end Arcs

section Order

theorem wellFormed : WellFormed graph.nodes graph.edges (forest [] graph.groups) :=
  Register.error?_eq_none_iff.mp (by decide +kernel)

theorem measured : Measured graph.nodes graph.edges graph.spacing := by
  have hthousandth : IsMeasure (1 / 1000) := ⟨by norm_num, 10000, by norm_num⟩
  have hfiftieth : IsMeasure (1 / 50) := ⟨by norm_num, 200000, by norm_num⟩
  have hsize : ∀ n ∈ graph.nodes, (n.width = 1 / 1000 ∨ n.width = 1 / 50) ∧ n.height = 1 := by decide +kernel
  have hlabel : ∀ e ∈ graph.edges, e.labelWidth = 0 ∧ e.labelHeight = 0 := by decide +kernel
  have hlength : ∀ q ∈ graph.spacing.lengths, q = 0 ∨ q = 1 ∨ q = 1 / 1000 := by decide +kernel
  refine ⟨fun n hn => ?_, fun e he => ?_, ?_⟩
  · obtain ⟨hw | hw, hh⟩ := hsize n hn
    · exact ⟨hw ▸ hthousandth, hh ▸ .natCast 1⟩
    · exact ⟨hw ▸ hfiftieth, hh ▸ .natCast 1⟩
  · obtain ⟨hw, hh⟩ := hlabel e he
    exact ⟨hw ▸ .zero, hh ▸ .zero⟩
  · intro q hq
    rcases hlength q hq with rfl | rfl | rfl
    exacts [.zero, .natCast 1, hthousandth]

abbrev solution : Solution Rat :=
  graph.solution 4

theorem stock_solution : solution.stock = stock :=
  stock_eq

theorem layers_solution : solution.layers = stock.layers := by
  obtain ⟨_, hdepth, hcrossings, hlayers, _⟩ := stock_spec
  change Layers.ofStock 4 solution.stock = stock.layers
  rw [stock_solution]
  refine Layers.ofStock_of_crossings_eq_zero hcrossings (fun order layer hl => ?_) 4
  rw [hdepth]
  rcases hlayers layer hl with h | rfl
  · exact Layers.arrange_of_path_nil h 1 0
  · exact Layers.arrange_pair rfl rfl

theorem bands_solution : solution.bands = bands := by
  change RankBand.ofLayers graph.spacing solution.stock.span solution.layers = _
  rw [stock_solution, layers_solution]

theorem acyclic_arcs : Acyclic (Follows (arcs.map fun a => (a.tail, a.head))) := by
  obtain ⟨place, hs⟩ := SizedGraph.exists_solved wellFormed measured 4
  have h := hs.arranged.acyclic graph.spacing
  have harcs : solution.toArrangement.arcs graph.spacing (forest [] graph.groups) = arcs := by
    rw [Arrangement.arcs, stock_spec.left, stock_solution, layers_solution]
    rfl
  rwa [harcs] at h

end Order

section Moves

abbrev first : Abscissae Rat :=
  Abscissae.ofLabels (Flow.place arcs)

abbrev column : Rat := first.value (.item (.bend 26 26))

theorem value_first {v : Variable} {n : Int} (hv : v ∈ tied) (hn : position v = n) :
    first.value v = column + (n - 2) / 100 := by
  obtain ⟨hmeets, hfeasible, htight, htied⟩ := flow_spec
  have hbend : Variable.item (.bend 26 26) ∈ tied := by simp [tied]
  rw [first, Abscissae.value_place_of_tied acyclic_arcs hmeets hfeasible htight htied hv hbend, hn]
  push_cast
  rfl

theorem first_column {v : Variable} (hv : v ∈ tied) (hp : position v = 2) : first.value v = column := by
  rw [value_first hv hp]
  norm_num

theorem first_left {v : Variable} (hv : v ∈ tied) (hp : position v = 1) : first.value v = column - 1 / 100 := by
  rw [value_first hv hp]
  norm_num
  ring

-- The coordinates after some nodes have moved.
abbrev after (items : List (Item Rat)) : Abscissae Rat :=
  items.foldl (Abscissae.balanceNode arcs stock.segments) first

theorem after_concat (items : List (Item Rat)) (i : Item Rat) :
    after (items ++ [i]) = Abscissae.balanceNode arcs stock.segments (after items) i :=
  List.foldl_concat ..

theorem value_after {items : List (Item Rat)} {v : Variable} (h : ∀ i ∈ items, v ≠ .item i.slot) :
    (after items).value v = first.value v :=
  Abscissae.value_foldl_balanceNode h

theorem keeps_after (items : List (Item Rat)) : Abscissae.Keeps arcs (after items) :=
  (Abscissae.keeps_place acyclic_arcs).foldl_balanceNode stock.segments items

-- A node that is held to the left of the column stays there, although its neighbour is in the column.
theorem after_held {items : List (Item Rat)} {i : Item Rat} {v : Variable} {slot : Slot} {w : Rat}
    (hb : ∃ b ∈ arcs, b.tail = .item i.slot ∧ b.head = v ∧ b.length = 1)
    (hn : Abscissae.neighbours stock.segments i = [(slot, w)]) (hw : 1 / 100000000 ≤ w)
    (hi : (after items).value (.item i.slot) = column - 1 / 100) (hv : (after items).value v = column)
    (hs : (after items).value (.item slot) = column) :
    (after (items ++ [i])).value (.item i.slot) = column - 1 / 100 := by
  obtain ⟨b, hb, ht, rfl, hl⟩ := hb
  rw [after_concat, ← hi]
  refine Abscissae.value_balanceNode_of_held (keeps_after items) hb ht ?_ ?_
  · rw [ht, hl, hi, hv]
    norm_num
  · rw [Abscissae.middle_of_single hn hw, hi, hs]
    linarith

theorem after_beside : (after ([above] ++ [beside])).value (.item beside.slot) = column - 1 / 100 := by
  obtain ⟨⟨hb, hn⟩, _⟩ := moves_spec
  refine after_held hb hn (by norm_num) ?_ ?_ ?_
  · exact (value_after (by simp [above, beside, nodeItem])).trans (first_left (by simp [tied, beside, nodeItem]) rfl)
  · exact (value_after (by simp [above, nodeItem])).trans (first_column (by simp [tied]) rfl)
  · exact (value_after (by simp [above, nodeItem])).trans (first_column (by simp [tied, steps, List.zipIdx]) rfl)

-- The first node of the row goes to the middle of its neighbours.
theorem after_start : (after ([above] ++ [beside] ++ [nodeItem "a" 2])).value (.item (.node "a")) =
    column - 1 / 200 := by
  obtain ⟨_, _, ⟨hfree, hn⟩, _⟩ := moves_spec
  have hbend : (after ([above] ++ [beside])).value (.item (.bend 0 1)) = column :=
    (value_after (by simp [above, beside, nodeItem])).trans (first_column (by simp [tied]) rfl)
  have hb : (after ([above] ++ [beside])).value (.item (.node "b")) = column :=
    (value_after (by simp [above, beside, nodeItem])).trans (first_column (by simp [tied, steps, List.zipIdx]) rfl)
  have hbeside : (after ([above] ++ [beside])).value (.item (.node "beside")) = column - 1 / 100 := after_beside
  rw [after_concat]
  refine (Abscissae.value_balanceNode_of_free (i := nodeItem "a" 2) hfree (by simp [hn])).trans ?_
  rw [Abscissae.middle, hn]
  simp only [List.map_cons, List.map_nil, hbend, hb, hbeside]
  rw [show (4 : Rat) = 1 + 3 by norm_num, Abscissae.medianMidpoint_of_half (by linarith) (by norm_num) (by norm_num)]
  ring

-- The last node of the row is left with what remains of the displacement after one halving for each node.
theorem after_row : (after upTo).value (.item (.node "x")) = column - 1 / 200 / 2 ^ 23 := by
  obtain ⟨_, _, _, _, hrelay⟩ := moves_spec
  obtain ⟨hnodup, hslots, hbend, _⟩ := slots_spec
  rw [after, List.foldl_append]
  refine hrelay.value_foldl (d := 1 / 200) hnodup hbend (by norm_num) after_start fun slot hs => ?_
  obtain ⟨ht, hp, hne⟩ := hslots slot hs
  exact (value_after hne).trans (first_column ht hp)

-- Neither the bounds of the group nor what is below the row moves with it.
theorem value_upTo {v : Variable} (hv : v ∈ [.item wide.slot, .right "box", .item last.slot, .item (.bend 26 26)]) :
    v ∈ tied ∧ (after upTo).value v = first.value v := by
  obtain ⟨_, _, _, hstay⟩ := slots_spec
  obtain ⟨ht, hne⟩ := hstay v hv
  exact ⟨ht, value_after hne⟩

theorem upTo_column {v : Variable} (hv : v ∈ [.item wide.slot, .right "box", .item last.slot, .item (.bend 26 26)])
    (hp : position v = 2) : (after upTo).value v = column :=
  (value_upTo hv).right.trans (first_column (value_upTo hv).left hp)

theorem after_wide : (after (upTo ++ [wide])).value (.item wide.slot) = column - 1 / 100 := by
  obtain ⟨_, ⟨hb, hn⟩, _⟩ := moves_spec
  obtain ⟨ht, hfirst⟩ := value_upTo (v := .item wide.slot) (by simp)
  exact after_held hb hn (by norm_num) (hfirst.trans (first_left ht rfl)) (upTo_column (by simp) rfl)
    (upTo_column (by simp) rfl)

theorem x_solution : solution.x = after (upTo ++ [wide] ++ [last]) := by
  obtain ⟨hforest, _, _, _, hmoved, _⟩ := stock_spec
  change Abscissae.ofLayers graph.spacing (forest [] graph.groups) solution.stock.segments solution.layers = _
  rw [hforest, stock_solution, layers_solution]
  change Abscissae.balance arcs stock.segments stock.layers first = _
  rw [Abscissae.balance, hmoved]

theorem value_x {v : Variable} (hw : v ≠ .item wide.slot) (hl : v ≠ .item last.slot) :
    solution.x.value v = (after upTo).value v := by
  rw [x_solution, after_concat, Abscissae.value_balanceNode_of_ne hl, after_concat,
    Abscissae.value_balanceNode_of_ne hw]

theorem x_bend : solution.x.value (.item (.bend 26 26)) = column :=
  (value_x (by simp [wide]) (by simp [last, nodeItem])).trans (upTo_column (by simp) rfl)

theorem x_row : solution.x.value (.item (.node "x")) = column - 1 / 200 / 2 ^ 23 :=
  (value_x (by simp [wide]) (by simp [last, nodeItem])).trans after_row

theorem x_wide : solution.x.value (.item wide.slot) = column - 1 / 100 := by
  rw [x_solution, after_concat, Abscissae.value_balanceNode_of_ne (by simp [wide, last, nodeItem]), after_wide]

theorem x_last : solution.x.value (.item last.slot) = column := by
  obtain ⟨_, _, _, ⟨hfree, hn⟩, _⟩ := moves_spec
  have hbend : (after (upTo ++ [wide])).value (.item (.bend 26 26)) = column := by
    rw [after_concat, Abscissae.value_balanceNode_of_ne (by simp [wide]), upTo_column (by simp) rfl]
  rw [x_solution, after_concat, Abscissae.value_balanceNode_of_free hfree (by simp [hn]), Abscissae.middle, hn]
  simp only [List.map_cons, List.map_nil, hbend, after_wide]
  exact Abscissae.medianMidpoint_of_heavier (by linarith) (by norm_num) (by norm_num)

end Moves

section Crossing

theorem center_eq {i : Item Rat} {x y : Rat} (hx : solution.x.value (.item i.slot) = x)
    (hy : RankBand.center? bands i.rank = some y) : solution.center i = ⟨x, y⟩ := by
  rw [Solution.center, bands_solution, hy, hx]
  rfl

theorem center_row : solution.center (nodeItem "x" 25) = ⟨column - 1 / 200 / 2 ^ 23, 101 / 2⟩ :=
  center_eq x_row bands_spec.left

theorem center_wide : solution.center wide = ⟨column - 1 / 100, 105 / 2⟩ :=
  center_eq x_wide bands_spec.right.left

theorem center_last : solution.center last = ⟨column, 109 / 2⟩ :=
  center_eq x_last bands_spec.right.right.left

theorem chainPoints_bent : solution.chainPoints bentChain =
    [⟨column - 1 / 200 / 2 ^ 23, 101 / 2⟩, ⟨column, 103 / 2⟩, ⟨column, 107 / 2⟩, ⟨column, 109 / 2⟩] := by
  obtain ⟨_, _, _, hupper, hlower⟩ := bands_spec
  have hbend : solution.x.value (.item (bendItem 26 26).slot) = column := x_bend
  have hu : RankBand.midline solution.bands (nodeItem "x" 25).rank = 103 / 2 := bands_solution ▸ hupper
  have hl : RankBand.midline solution.bands (bendItem 26 26).rank = 107 / 2 := bands_solution ▸ hlower
  simp [Solution.chainPoints, bentChain, Chain.segments, center_row, center_last, hbend, hu, hl, x_last]

theorem nodeBox_eq {n : SizedNode Rat} {i : Item Rat} {c : Point Rat} (hn : graph.itemOf n = i)
    (hw : i.width = 1 / 1000) (hh : i.height = 1) (hc : solution.center i = c) :
    solution.nodeBox graph n = ⟨c.x, c.y, 1 / 2000, 1 / 2⟩ := by
  subst hn hc
  have hw : n.width = 1 / 1000 := hw
  have hh : n.height = 1 := hh
  rw [Solution.nodeBox, hw, hh, Box.around]
  norm_num

variable {place : String → Nat} (hs : Solved graph place solution)
include hs

-- The straight line from the displaced node to the one in the column is cut off at their boxes.
theorem exists_route : ∃ e f,
    SizedGraph.route (graph.boxes (graph.rawOf solution)) (graph.rawOf solution) 26 bent = [e, f] ∧
    Crosses 1 ⟨column - 1 / 200 / 2 ^ 23, 101 / 2, 1 / 2000, 1 / 2⟩ ⟨column, 109 / 2⟩ e ∧
    Crosses (-1) ⟨column, 109 / 2, 1 / 2000, 1 / 2⟩ e f := by
  obtain ⟨_, _, _, _, _, _, hchain⟩ := stock_spec
  obtain ⟨upper, lower, c, hc⟩ := hs.exists_chainOf (k := 26) (e := bent) rfl rfl (by decide)
  obtain rfl : c = bentChain := hchain c (stock_solution ▸ hc.mem) hc.edge
  obtain ⟨o, hconnects⟩ := hc.connects
  have hitems := congrArg Chain.items hconnects.eq
  have hupper : graph.itemOf upper = nodeItem "x" 25 := by
    have := congrArg List.head? hitems
    simpa [bentChain] using this.symm
  have hlower : graph.itemOf lower = last := by
    have := congrArg List.getLast? hitems
    rw [List.getLast?_concat] at this
    exact (Option.some.inj this).symm
  have hubox := nodeBox_eq hupper rfl rfl center_row
  have hlbox := nodeBox_eq hlower rfl rfl center_last
  have hu : Thick (solution.nodeBox graph upper) := by rw [hubox]; constructor <;> norm_num
  have hl : Thick (solution.nodeBox graph lower) := by rw [hlbox]; constructor <;> norm_num
  obtain ⟨l, _, _, hspans⟩ := hs.exists_spans hc hu hl
  have hpoints := chainPoints_bent
  rw [hubox, hlbox] at hspans
  generalize column = t at hubox hlbox hspans hpoints
  have hx : |t - 1 / 200 / 2 ^ 23 - t| ≤ tolerance := by
    rw [sub_sub_cancel_left, abs_neg, tolerance_eq]
    norm_num [abs_of_pos]
  rcases hs.route_eq hc with ⟨_, _, _, heq⟩ | ⟨_, hsource, _⟩
  · obtain ⟨e, f, hclip, hcrosses⟩ := hspans.exists_clip_pair hx
    refine ⟨e, f, ?_, hcrosses⟩
    rw [heq, hpoints, hubox, hlbox, simplify_withBends_of_near hx, ← hclip]
    · rfl
    all_goals
      rw [tolerance_eq]
      norm_num
  · have hid : lower.id = "end" := Slot.node.inj (congrArg Item.slot hlower)
    exact absurd (hid.symm.trans hsource) (by decide)

theorem passes_wide : ∃ q,
    Passes (SizedGraph.route (graph.boxes (graph.rawOf solution)) (graph.rawOf solution) 26 bent) q ∧
    ∀ n ∈ graph.nodes, n.id = "wide" → (graph.nodeBounds solution n).Interior q := by
  obtain ⟨_, _, _, _, _, hwide, _⟩ := stock_spec
  obtain ⟨e, f, heq, he, hf⟩ := exists_route hs
  have hey := he.y
  have hfy := hf.y
  obtain ⟨r, h0, h1, hex, hery⟩ := he.line
  obtain ⟨r', h0', h1', hfx, _⟩ := hf.line
  simp only [Box.center] at hey hfy hex hery hfx
  obtain rfl : r = 1 / 8 := by linarith
  have hlt : e.x < column := by rw [hex]; linarith
  have hle : f.x ≤ column := hfx ▸ (add_sub_mul_le h0' h1' le_rfl hlt.le)
  have hge : e.x ≤ f.x := hfx ▸ (le_add_sub_mul h0' h1' hlt.le le_rfl)
  refine ⟨⟨(e.x + f.x) / 2, 105 / 2⟩, ⟨[], e, f, [], heq, 1 / 2, by norm_num, by norm_num, ?_, ?_⟩, fun n hn hid => ?_⟩
  · ring
  · rw [hey, hfy]
    norm_num
  · have hitem : graph.itemOf n = wide :=
      hwide _ (stock_solution ▸ hs.itemOf_mem hn) (by rw [SizedGraph.itemOf, hid])
    have hw : n.width = 1 / 50 := congrArg Item.width hitem
    have hh : n.height = 1 := congrArg Item.height hitem
    simp only [SizedGraph.nodeBounds, Bounds.ofBox, Box.around, Bounds.Interior, hitem, center_wide, hw, hh]
    refine ⟨?_, ?_, by norm_num, by norm_num⟩ <;> linarith

end Crossing

-- The straight line cuts a corner off the wide node.
theorem layout_crosses_wide : ∃ p, graph.layout 4 = .ok p ∧ Measured graph.nodes graph.edges graph.spacing ∧
    graph.HasThickNodes ∧ 1 / 1000 ≤ graph.spacing.edge ∧ graph.HasLowLoops ∧ ¬graph.RoutesAvoidBoxes p 0 := by
  have hne : graph.nodes ≠ [] := by simp [graph]
  obtain ⟨p, hp⟩ := SizedGraph.exists_layout rfl hne wellFormed 4
  have hthick : graph.HasThickNodes := by
    unfold SizedGraph.HasThickNodes
    decide +kernel
  have hloops : graph.HasLowLoops := by
    have hloop : ∀ e ∈ graph.edges, e.isLoop = false := by decide +kernel
    intro e he hl
    simp [hloop e he] at hl
  refine ⟨p, hp, measured, hthick, le_rfl, hloops, fun havoid => ?_⟩
  obtain ⟨_, _, rfl⟩ := SizedGraph.layout_eq hp hne
  obtain ⟨place, hs⟩ := SizedGraph.exists_solved wellFormed measured 4
  obtain ⟨dx, dy, hd⟩ := SizedGraph.exists_drawn hs.toStacked
  obtain ⟨q, hq, hinterior⟩ := passes_wide hs
  have hbent : (bent, 26) ∈ graph.realEdges := by
    simp [SizedGraph.realEdges, graph, steps, List.zipIdx, SizedEdge.plain, bent]
  have hends : bent.source ≠ bent.target := by decide
  obtain ⟨n, hn, hid⟩ : ∃ n ∈ graph.nodes, n.id = "wide" := ⟨⟨"wide", 1 / 50, 1, none, none⟩, by simp [graph], rfl⟩
  obtain ⟨d, hdm⟩ := hd.exists_drawn_edge hbent
  obtain ⟨m, hm, _, hbounds⟩ := hd.exists_drawn_node hn
  refine (havoid _ hdm hends _ ((hd.points_eq hdm).right ▸ hq.map_shift dx dy)).left m hm ?_
  rw [hbounds, Bounds.interior_shrink_shift_iff]
  simpa [Bounds.shrink] using hinterior n hn hid

end Drifting

end LayeredDiagram
