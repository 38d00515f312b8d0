import LayeredDiagram.Layout.Graph
import LayeredDiagram.Proofs.Existence
import LayeredDiagram.Proofs.Rectangles
import LayeredDiagram.Proofs.Stacking
import LayeredDiagram.Proofs.Tables
/-!
Where the items of a drawn graph are. Every item has a room of its own, as wide as the item with its loops and
as tall as the item, and the rooms of different items do not overlap. Boxes of nodes and those kept free for
labels lie in the rooms of their items.
-/

namespace LayeredDiagram

open LayeredDiagram.Group

variable {g : SizedGraph Rat} {place : String → Nat} {s : Solution Rat} {p : PlacedGraph Rat}
variable {n m : SizedNode Rat} {i j : Item Rat} {b c : Bounds Rat}

-- The room of an item.
def Solution.room (s : Solution Rat) (i : Item Rat) : Bounds Rat :=
  ⟨i.leftEdge s.x, (s.center i).y - i.height / 2, i.rightEdge s.x, (s.center i).y + i.height / 2⟩

-- The box of an item, without the room for loops.
def Solution.itemBounds (s : Solution Rat) (i : Item Rat) : Bounds Rat :=
  Bounds.ofBox (Box.around (s.center i) i.width i.height)

namespace SizedGraph

-- The item of a node.
def itemOf (g : SizedGraph Rat) (n : SizedNode Rat) : Item Rat :=
  ⟨.node n.id, (ranksOf g.nodes g.edges).rank n.id, n.width, n.height, .node,
    ownerPath (forest [] g.groups) n.id, Loop.reach (Loop.all g.spacing g.edges) n.id⟩

-- The layout that a solution gives.
abbrev rawOf (g : SizedGraph Rat) (s : Solution Rat) : RawLayout Rat :=
  s.toRaw g.nodes g.edges g.spacing.selfLoop

-- The box of a node, as wide as its item without the loops.
def nodeBounds (g : SizedGraph Rat) (s : Solution Rat) (n : SizedNode Rat) : Bounds Rat :=
  Bounds.ofBox (Box.around (s.center (g.itemOf n)) n.width n.height)

end SizedGraph

-- A solution of a graph of which the sizes are such that its ranks lie below each other.
structure Stacked (g : SizedGraph Rat) (place : String → Nat) (s : Solution Rat) : Prop where
  wellFormed : WellFormed g.nodes g.edges (forest [] g.groups)
  stock_eq : s.stock = Stock.ofNodes g.nodes g.edges g.spacing (forest [] g.groups)
  arranged : Arranged (forest [] g.groups) place s.toArrangement
  bands_eq : s.bands = s.toArrangement.bands g.spacing
  spacing_nonneg : ∀ q ∈ g.spacing.lengths, 0 ≤ q
  height_nonneg : ∀ i ∈ s.stock.items, 0 ≤ i.height

-- A solution of a graph whose coordinates keep all constraints.
structure Solved (g : SizedGraph Rat) (place : String → Nat) (s : Solution Rat) : Prop extends Stacked g place s where
  measured : Measured g.nodes g.edges g.spacing
  spaced : Spaced g.spacing (forest [] g.groups) s.toArrangement s.x

namespace SizedGraph

-- The solution that the layout of a graph is made from.
abbrev solution (sweeps : Nat) (g : SizedGraph Rat) : Solution Rat :=
  Solution.solve sweeps g.nodes g.edges g.spacing (forest [] g.groups)

theorem exists_stacked (hw : WellFormed g.nodes g.edges (forest [] g.groups))
    (hs : ∀ q ∈ g.spacing.lengths, 0 ≤ q) (hn : ∀ n ∈ g.nodes, 0 ≤ n.height) (sweeps : Nat) :
    ∃ place, Stacked g place (g.solution sweeps) := by
  have ⟨place, hA⟩ := Arrangement.exists_arranged hw sweeps g.spacing
  exact ⟨place, {
    wellFormed := hw
    stock_eq := rfl
    arranged := hA
    bands_eq := rfl
    spacing_nonneg := hs
    height_nonneg := fun _ hi => Stock.height_nonneg_of_mem_items hn hi
  }⟩

theorem exists_solved (hw : WellFormed g.nodes g.edges (forest [] g.groups))
    (hm : Measured g.nodes g.edges g.spacing) (sweeps : Nat) : ∃ place, Solved g place (g.solution sweeps) := by
  have ⟨place, hA⟩ := Arrangement.exists_arranged hw sweeps g.spacing
  exact ⟨place, {
    wellFormed := hw
    measured := hm
    stock_eq := rfl
    arranged := hA
    spaced := hA.spaced hm.spacing fun _ hi => Stock.isMeasure_of_mem_items hm hi
    bands_eq := rfl
    spacing_nonneg := fun q hq => (hm.spacing q hq).nonneg
    height_nonneg := fun _ hi => (Stock.isMeasure_of_mem_items hm hi).right.left.nonneg
  }⟩

end SizedGraph

namespace Stacked

variable (hs : Stacked g place s)
include hs

theorem bandTop_le_room (hi : i ∈ s.stock.items) : s.bandTop g.spacing i.rank ≤ (s.room i).top := by
  have := hs.arranged.height_le hi
  simp only [Arrangement.bandTop, Solution.room, Solution.center, hs.bands_eq]
  linarith

theorem room_le_bandBottom (hi : i ∈ s.stock.items) : (s.room i).bottom ≤ s.bandBottom g.spacing i.rank := by
  have := hs.arranged.height_le hi
  simp only [Arrangement.bandBottom, Solution.room, Solution.center, hs.bands_eq]
  linarith

theorem bandTop_le_bandBottom (r : Nat) : s.bandTop g.spacing r ≤ s.bandBottom g.spacing r := by
  have hh : ∀ i ∈ s.layers[r]?.getD [], 0 ≤ i.height := fun i hi =>
    hs.height_nonneg i (hs.arranged.mem_layer_iff.mp hi).left
  have := RankBand.tallest_nonneg hh
  simp only [Arrangement.bandTop, Arrangement.bandBottom]
  linarith

theorem nonneg {q : Rat} (hq : q ∈ g.spacing.lengths) : 0 ≤ q :=
  hs.spacing_nonneg q hq

theorem headers_nonneg (r : Nat) : 0 ≤ RankBand.headers g.spacing s.stock.span (s.layers[r]?.getD []) :=
  RankBand.headers_nonneg (hs.nonneg (by simp [Spacing.lengths])) (hs.nonneg (by simp [Spacing.lengths]))

theorem closing_nonneg (r : Nat) :
    0 ≤ (RankBand.closing s.stock.span (s.layers[r]?.getD []) : Rat) * g.spacing.groupPadding :=
  mul_nonneg (Nat.cast_nonneg _) (hs.nonneg (by simp [Spacing.lengths]))

-- Ranks with items lie below each other, with room for what closes above and opens below.
theorem bandBottom_le_bandTop (hi : i ∈ s.stock.items) (hj : j ∈ s.stock.items) (hr : i.rank < j.rank) :
    s.bandBottom g.spacing i.rank +
        RankBand.closing s.stock.span (s.layers[i.rank]?.getD []) * g.spacing.groupPadding +
        RankBand.headers g.spacing s.stock.span (s.layers[j.rank]?.getD []) ≤
      s.bandTop g.spacing j.rank := by
  have hb := hs.arranged.bandBottom_le_bandTop hs.spacing_nonneg hs.height_nonneg hi hj hr
  have hg := hs.nonneg (q := g.spacing.rank) (by simp [Spacing.lengths])
  linarith

-- Items of different ranks are above each other.
theorem room_bottom_le_top (hi : i ∈ s.stock.items) (hj : j ∈ s.stock.items) (hr : i.rank < j.rank) :
    (s.room i).bottom ≤ (s.room j).top := by
  have hb := hs.bandBottom_le_bandTop hi hj hr
  have hc := hs.closing_nonneg i.rank
  have hh := hs.headers_nonneg j.rank
  have := hs.room_le_bandBottom hi
  have := hs.bandTop_le_room hj
  linarith

theorem room_top_le_bottom (hi : i ∈ s.stock.items) : (s.room i).top ≤ (s.room i).bottom := by
  have := hs.height_nonneg i hi
  simp only [Solution.room]
  linarith

theorem itemOf_mem (hn : n ∈ g.nodes) : g.itemOf n ∈ s.stock.items := by
  rw [hs.stock_eq]
  exact Stock.mem_items_of_mem_nodeItems (mem_nodeItemsOf_iff.mpr ⟨n, hn, rfl⟩)

theorem eq_of_slot_eq (hi : i ∈ s.stock.items) (hj : j ∈ s.stock.items) (h : i.slot = j.slot) : i = j :=
  List.inj_on_of_nodup_map hs.arranged.slot_nodup hi hj h

theorem slot_itemOf_ne (hn : n ∈ g.nodes) (hm : m ∈ g.nodes) (h : n ≠ m) : (g.itemOf n).slot ≠ (g.itemOf m).slot :=
  fun hnm => h (List.inj_on_of_nodup_map hs.wellFormed.nodes_nodup hn hm (Slot.node.inj hnm))

theorem lookup_nodeCenters (hn : n ∈ g.nodes) : s.nodeCenters.lookup n.id = some (s.center (g.itemOf n)) :=
  Solution.lookup_nodeCenters_of_slot hs.arranged.slot_nodup (hs.itemOf_mem hn) rfl

theorem lookup_placeholders {m : String} (hi : i ∈ s.stock.items) (hk : i.slot = .placeholder m) :
    s.placeholders.lookup m = some (Box.around (s.center i) i.width i.height) :=
  Solution.lookup_placeholders_of_slot hs.arranged.slot_nodup hi hk

-- Whatever is made from the centres of nodes is made for every node.
theorem filterMap_nodeCenters {β : Type} (f : SizedNode Rat → Point Rat → β) :
    (g.nodes.filterMap fun n => (s.nodeCenters.lookup n.id).map (f n)) =
      g.nodes.map fun n => f n (s.center (g.itemOf n)) := by
  rw [← List.filterMap_eq_map']
  refine List.filterMap_congr fun n hn => ?_
  rw [hs.lookup_nodeCenters hn, Option.map_some]

theorem boxes_eq : g.boxes (g.rawOf s) =
    g.nodes.map fun n => (n.id, Box.around (s.center (g.itemOf n)) n.width n.height) :=
  hs.filterMap_nodeCenters fun n c => (n.id, Box.around c n.width n.height)

theorem lookup_boxes (hn : n ∈ g.nodes) :
    (g.boxes (g.rawOf s)).lookup n.id = some (Box.around (s.center (g.itemOf n)) n.width n.height) := by
  rw [hs.boxes_eq]
  refine lookup_of_mem ?_ (List.mem_map_of_mem hn)
  rw [List.map_map]
  exact hs.wellFormed.nodes_nodup

end Stacked

namespace Solved

variable (hs : Solved g place s)
include hs

theorem room_apart (hi : i ∈ s.stock.items) (hj : j ∈ s.stock.items) (hij : i ≠ j) :
    (s.room i).Apart (s.room j) := by
  -- within a rank the constraints keep items apart, between ranks the bands do
  rcases Nat.lt_trichotomy i.rank j.rank with hr | hr | hr
  · exact .inr (.inr (.inl (hs.room_bottom_le_top hi hj hr)))
  · cases hs.spaced.rightEdge_le_leftEdge_or hs.arranged hi hj hr hij
    case inl h => exact .inl h
    case inr h => exact .inr (.inl h)
  · exact .inr (.inr (.inr (hs.room_bottom_le_top hj hi hr)))

-- Boxes in the rooms of items that stand for different things.
theorem apart_of_slot_ne (hi : i ∈ s.stock.items) (hj : j ∈ s.stock.items) (hij : i.slot ≠ j.slot)
    (hb : b.Within (s.room i)) (hc : c.Within (s.room j)) : b.Apart c :=
  (hs.room_apart hi hj fun h => hij (congrArg Item.slot h)).of_within hb hc

theorem around_within_room (hi : i ∈ s.stock.items) : (s.itemBounds i).Within (s.room i) := by
  have := (hs.spaced.items i hi).right.right.nonneg
  constructor <;> simp only [Solution.itemBounds, Bounds.ofBox, Box.around, Solution.room, Solution.center,
    Item.leftEdge, Item.rightEdge] <;> linarith

theorem nodeBounds_within_room (hn : n ∈ g.nodes) : (g.nodeBounds s n).Within (s.room (g.itemOf n)) :=
  hs.around_within_room (hs.itemOf_mem hn)

end Solved

namespace SizedGraph

theorem map_placeNodes (hs : Stacked g place s) :
    (g.placeNodes (g.rawOf s)).map (fun d => (d.id, d.bounds)) = g.nodes.map fun n => (n.id, g.nodeBounds s n) := by
  rw [placeNodes, rawOf, Solution.toRaw, hs.filterMap_nodeCenters, List.map_map]
  refine List.map_congr_left fun n _ => Prod.ext rfl ?_
  ext <;> simp only [Function.comp, PlacedNode.bounds, PlacedNode.right, PlacedNode.bottom, Point.toCorner, nodeBounds,
    Bounds.ofBox, Box.around] <;> ring

end SizedGraph

-- What is drawn of a solution. Everything is moved by the same distance onto the canvas.
structure Drawn (g : SizedGraph Rat) (s : Solution Rat) (dx dy : Rat) (p : PlacedGraph Rat) : Prop where
  sizes : p.nodes.map (fun d => (d.id, d.width, d.height)) = g.nodes.map fun n => (n.id, n.width, n.height)
  nodes : p.nodes.map (fun d => (d.id, d.bounds)) = g.nodes.map fun n => (n.id, (g.nodeBounds s n).shift dx dy)
  edges : p.edges = (g.placeEdges (g.rawOf s)).map (·.shift dx dy)
  groups : p.groups = PlacedGroup.shiftAll dx dy (g.placeGroups (g.rawOf s))

namespace SizedGraph

theorem exists_drawn (hs : Stacked g place s) : ∃ dx dy, Drawn g s dx dy (g.assemble (g.rawOf s)) := by
  refine ⟨_, _, ?_, ?_, rfl, rfl⟩
  · simp only [assemble, onCanvas, List.map_map]
    rw [placeNodes, rawOf, Solution.toRaw, hs.filterMap_nodeCenters, List.map_map]
    rfl
  · simp only [assemble, onCanvas, List.map_map]
    generalize g.margin.x - _ = dx, g.margin.y - _ = dy
    have := congrArg (List.map fun x => (x.1, x.2.shift dx dy)) (map_placeNodes hs)
    rw [List.map_map, List.map_map] at this
    refine (List.map_congr_left fun d _ => ?_).trans this
    exact Prod.ext rfl (PlacedNode.bounds_shift dx dy d)

theorem exists_drawn_solution {sweeps : Nat} (h : g.layout sweeps = .ok p) (hn : g.nodes ≠ [])
    (hm : Measured g.nodes g.edges g.spacing) : p = g.assemble (g.rawOf (g.solution sweeps)) ∧
      ∃ place dx dy, Solved g place (g.solution sweeps) ∧ Drawn g (g.solution sweeps) dx dy p := by
  obtain ⟨hw, _, hp⟩ := layout_eq h hn
  obtain ⟨place, hs⟩ := exists_solved hw hm sweeps
  obtain ⟨dx, dy, hd⟩ := exists_drawn hs.toStacked
  exact ⟨hp, place, dx, dy, hs, hp ▸ hd⟩

-- A graph with nodes is drawn from a solution.
theorem exists_drawn_of_layout {sweeps : Nat} (h : g.layout sweeps = .ok p)
    (hm : Measured g.nodes g.edges g.spacing) :
    g.nodes = [] ∧ p = { width := 0, height := 0 } ∨ ∃ place s dx dy, Solved g place s ∧ Drawn g s dx dy p := by
  by_cases hn : g.nodes = []
  case pos => exact .inl ⟨hn, layout_of_nil h hn⟩
  case neg =>
    obtain ⟨_, place, dx, dy, hs, hd⟩ := exists_drawn_solution h hn hm
    exact .inr ⟨place, _, dx, dy, hs, hd⟩

end SizedGraph

namespace Drawn

variable {dx dy : Rat} (h : Drawn g s dx dy p)
include h

theorem map_bounds : p.nodes.map (·.bounds) = (g.nodes.map (g.nodeBounds s)).map (Bounds.shift dx dy) := by
  simpa [Function.comp_def] using congrArg (List.map Prod.snd) h.nodes

theorem exists_node {d : PlacedNode Rat} (hd : d ∈ p.nodes) :
    ∃ n ∈ g.nodes, d.id = n.id ∧ d.bounds = (g.nodeBounds s n).shift dx dy := by
  have hm := List.mem_map_of_mem (f := fun d => (d.id, d.bounds)) hd
  rw [h.nodes] at hm
  have ⟨n, hn, hnd⟩ := List.mem_map.mp hm
  have ⟨hi, hb⟩ := Prod.mk.inj hnd
  exact ⟨n, hn, hi.symm, hb.symm⟩

theorem exists_drawn_node {n : SizedNode Rat} (hn : n ∈ g.nodes) :
    ∃ d ∈ p.nodes, d.id = n.id ∧ d.bounds = (g.nodeBounds s n).shift dx dy := by
  have hm : (n.id, (g.nodeBounds s n).shift dx dy) ∈ p.nodes.map fun d => (d.id, d.bounds) :=
    h.nodes ▸ List.mem_map_of_mem hn
  have ⟨d, hd, hdn⟩ := List.mem_map.mp hm
  have ⟨hi, hb⟩ := Prod.mk.inj hdn
  exact ⟨d, hd, hi, hb⟩

end Drawn

namespace Arrangement

theorem measured_nestedGroups : Measured nestedGroups.nodes nestedGroups.edges nestedGroups.spacing where
  nodes := by simp [nestedGroups, IsMeasure.ofNat]
  edges := by simp [nestedGroups, SizedEdge.labelled, SizedEdge.plain, IsMeasure.ofNat, IsMeasure.zero]
  spacing := by simp [nestedGroups, Spacing.lengths, Spacing.standard, IsMeasure.ofNat]

theorem exists_layout_nestedGroups : ∃ p, nestedGroups.layout 4 = .ok p :=
  SizedGraph.exists_layout rfl (by simp [nestedGroups]) (Register.error?_eq_none_iff.mp (by decide)) 4

end Arrangement

end LayeredDiagram
