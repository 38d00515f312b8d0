import LayeredDiagram.Proofs.Staircase
/-!
Where routes start and end. The route of an edge leaves its source in the middle of the bottom and reaches its
target in the middle of the top, or the other way round if it is drawn against its direction, and it runs along the
axes in between.
-/

namespace LayeredDiagram

open LayeredDiagram.Group Route

variable {g : SizedGraph Rat} {place : String → Nat} {s : Solution Rat} {p : PlacedGraph Rat} {raw : RawLayout Rat}
variable {n upper lower : SizedNode Rat} {c : Chain Rat} {e : SizedEdge Rat} {k sweeps : Nat} {dx dy ε : Rat}

namespace PlacedNode

def topCenter (n : PlacedNode Rat) : Point Rat :=
  ⟨n.x + n.width / 2, n.y⟩

def bottomCenter (n : PlacedNode Rat) : Point Rat :=
  ⟨n.x + n.width / 2, n.y + n.height⟩

end PlacedNode

-- The box that routes at a node are cut off at.
abbrev Solution.nodeBox (s : Solution Rat) (g : SizedGraph Rat) (n : SizedNode Rat) : Box Rat :=
  Box.around (s.center (g.itemOf n)) n.width n.height

-- The chain of an edge at an index, from its upper to its lower node.
structure ChainOf (g : SizedGraph Rat) (s : Solution Rat) (e : SizedEdge Rat) (k : Nat) (upper lower : SizedNode Rat)
    (c : Chain Rat) : Prop where
  mem : c ∈ s.stock.chains
  edge : c.edge = k
  upper_mem : upper ∈ g.nodes
  lower_mem : lower ∈ g.nodes
  rank_lt : (g.itemOf upper).rank < (g.itemOf lower).rank
  connects : ∃ o, Chain.Connects (nodeItemsOf g.nodes g.edges g.spacing (forest [] g.groups)) g.edges o e
    (g.itemOf upper) (g.itemOf lower) c
  ends : (upper.id = e.source ∧ lower.id = e.target ∧ c.isReversed = false ∧ k ∉ (g.rawOf s).reversed) ∨
    (upper.id = e.target ∧ lower.id = e.source ∧ c.isReversed = true ∧ k ∈ (g.rawOf s).reversed)

namespace Stacked

variable (hs : Stacked g place s)
include hs

-- Every real edge between different nodes has a chain.
theorem exists_chainOf (he : g.edges[k]? = some e) (hk : e.kind = .real) (hn : e.source ≠ e.target) :
    ∃ upper lower c, ChainOf g s e k upper lower c := by
  obtain ⟨c, hc, rfl⟩ : ∃ c ∈ chainsOf g.nodes g.edges g.spacing (forest [] g.groups), c.edge = k :=
    List.mem_map.mp ((Chain.mem_map_edge_iff hs.wellFormed).mpr ⟨e, he, hk, hn⟩)
  obtain ⟨o, ho, _, hof, i, j, h⟩ := Chain.exists_orientation_of_mem hc he
  have hindex : c.edge = o.index := by rw [h.eq]
  have node {v : String} {i : Item Rat} (hi : i ∈ nodeItemsOf g.nodes g.edges g.spacing (forest [] g.groups))
      (hv : i.slot = .node v) : ∃ n ∈ g.nodes, n.id = v ∧ i = g.itemOf n := by
    obtain ⟨n, hn, rfl⟩ := mem_nodeItemsOf_iff.mp hi
    exact ⟨n, hn, Slot.node.inj hv, rfl⟩
  obtain ⟨upper, hu, hui, rfl⟩ := node h.upper_mem h.upper_slot
  obtain ⟨lower, hl, hli, rfl⟩ := node h.lower_mem h.lower_slot
  have hreversed : c.edge ∈ (g.rawOf s).reversed ↔ o.isReversed = true := by
    rw [SizedGraph.rawOf, Solution.toRaw, hs.stock_eq, hindex]
    exact Chain.mem_reversed_iff hs.wellFormed ho (hof.kind.trans hk)
  have hrev : c.isReversed = o.isReversed := by rw [h.eq]
  have hrank := hs.wellFormed.rank_lt ho
  rw [← hui, ← hli] at hrank
  refine ⟨upper, lower, c, hs.stock_eq ▸ hc, rfl, hu, hl, hrank, ⟨o, h⟩, ?_⟩
  rw [hui, hli, hreversed, hrev]
  cases hof.ends
  case inl h => exact .inl ⟨h.left, h.right.left, h.right.right, by simp [h.right.right]⟩
  case inr h => exact .inr ⟨h.left, h.right.left, h.right.right, h.right.right⟩

theorem lookup_routes (h : ChainOf g s e k upper lower c) : (g.rawOf s).routes.lookup k = some (s.chainRoute c) := by
  have hn : ((s.stock.chains.map fun c => (c.edge, s.chainRoute c)).map (·.1)).Nodup := by
    rw [List.map_map, hs.stock_eq]
    exact Chain.edge_nodup ..
  have hm := lookup_of_mem hn (List.mem_map.mpr ⟨c, h.mem, rfl⟩)
  rw [SizedGraph.rawOf, Solution.toRaw, Solution.routes, List.lookup_append, ← h.edge, hm, Option.some_or]

-- All points of the polyline of a chain between its two ends are between the boxes there, in the middle of gaps.
theorem exists_spans (h : ChainOf g s e k upper lower c) (hu : Thick (s.nodeBox g upper))
    (hl : Thick (s.nodeBox g lower)) : ∃ l, (∀ p ∈ l, ∃ seg ∈ c.segments, p.y = (s.arrival seg).y) ∧
      withBends true (s.chainPoints c) = (s.nodeBox g upper).center :: l ++ [(s.nodeBox g lower).center] ∧
      Spans 1 (s.nodeBox g upper) (s.nodeBox g lower) l := by
  obtain ⟨o, hc⟩ := h.connects
  obtain ⟨l, hl', hy⟩ := hc.exists_withBends_eq s
  have hbetween : ∀ p ∈ l, s.bandBottom g.spacing (g.itemOf upper).rank ≤ p.y ∧
      p.y ≤ s.bandTop g.spacing (g.itemOf lower).rank := by
    intro p hp
    obtain ⟨seg, hseg, hpy⟩ := hy p hp
    exact hpy ▸ hs.arrival_mem hc h.mem h.rank_lt hseg
  have hum := hs.itemOf_mem h.upper_mem
  have hlm := hs.itemOf_mem h.lower_mem
  have hbottom := hs.room_le_bandBottom hum
  have htop := hs.bandTop_le_room hlm
  have hgap := hs.bandBottom_le_bandTop_of_lt hum hlm h.rank_lt
  have hub : (s.room (g.itemOf upper)).bottom = (s.nodeBox g upper).y + (s.nodeBox g upper).halfHeight := rfl
  have hlt : (s.room (g.itemOf lower)).top = (s.nodeBox g lower).y - (s.nodeBox g lower).halfHeight := rfl
  refine ⟨l, hy, hl', ⟨abs_one, hu, hl, fun p hp => ?_, fun p hp => ?_, ?_⟩⟩
  · have := (hbetween p hp).left
    rw [Beyond]
    linarith
  · have := (hbetween p hp).right
    rw [Beyond]
    linarith
  · linarith

-- Drawn against its direction, an edge has the polyline of its chain from the lower end to the upper one.
theorem route_eq (h : ChainOf g s e k upper lower c) :
    (k ∉ (g.rawOf s).reversed ∧ upper.id = e.source ∧ lower.id = e.target ∧
      SizedGraph.route (g.boxes (g.rawOf s)) (g.rawOf s) k e = clip (some (s.nodeBox g upper))
        (some (s.nodeBox g lower)) (simplify (withBends true (s.chainPoints c)))) ∨
    (k ∈ (g.rawOf s).reversed ∧ lower.id = e.source ∧ upper.id = e.target ∧
      SizedGraph.route (g.boxes (g.rawOf s)) (g.rawOf s) k e = clip (some (s.nodeBox g lower))
        (some (s.nodeBox g upper)) (simplify (withBends true (s.chainPoints c)).reverse)) := by
  have hupper := hs.lookup_boxes h.upper_mem
  have hlower := hs.lookup_boxes h.lower_mem
  have hlong : ¬(s.chainPoints c).length < 2 := by
    obtain ⟨o, hc⟩ := h.connects
    rw [hc.chainPoints_eq]
    simp
  cases h.ends
  case inl hends =>
    obtain ⟨hu, hl, hr, hk⟩ := hends
    refine .inl ⟨hk, hu, hl, ?_⟩
    have hroute : s.chainRoute c = s.chainPoints c := by rw [Solution.chainRoute, hr]; rfl
    have hkc : (!(g.rawOf s).reversed.contains k) = true := by simpa using hk
    rw [SizedGraph.route, hs.lookup_routes h, Option.getD_some, ← hu, ← hl, hupper, hlower, hroute, snap,
      if_neg hlong, hkc]
  case inr hends =>
    obtain ⟨hu, hl, hr, hk⟩ := hends
    refine .inr ⟨hk, hl, hu, ?_⟩
    have hroute : s.chainRoute c = (s.chainPoints c).reverse := by rw [Solution.chainRoute, hr]; rfl
    have hkc : (!(g.rawOf s).reversed.contains k) = !true := by simpa using hk
    rw [SizedGraph.route, hs.lookup_routes h, Option.getD_some, ← hu, ← hl, hupper, hlower, hroute, snap,
      if_neg (by simpa using hlong), hkc, withBends_reverse]

end Stacked

-- The middles of the edges of a box at which routes start and end.
namespace Solution

def bottomMiddle (s : Solution Rat) (g : SizedGraph Rat) (n : SizedNode Rat) : Point Rat :=
  ⟨(s.center (g.itemOf n)).x, (s.center (g.itemOf n)).y + n.height / 2⟩

def topMiddle (s : Solution Rat) (g : SizedGraph Rat) (n : SizedNode Rat) : Point Rat :=
  ⟨(s.center (g.itemOf n)).x, (s.center (g.itemOf n)).y - n.height / 2⟩

end Solution

namespace Stacked

variable (hs : Stacked g place s)
include hs

-- Routes join the edges of the boxes that face each other.
theorem joins_route (h : ChainOf g s e k upper lower c) (hu : Thick (s.nodeBox g upper))
    (hl : Thick (s.nodeBox g lower)) :
    (k ∉ (g.rawOf s).reversed ∧ upper.id = e.source ∧ lower.id = e.target ∧
      Joins (1 / 100000000) (s.bottomMiddle g upper) (s.topMiddle g lower)
        (SizedGraph.route (g.boxes (g.rawOf s)) (g.rawOf s) k e)) ∨
    (k ∈ (g.rawOf s).reversed ∧ lower.id = e.source ∧ upper.id = e.target ∧
      Joins (1 / 100000000) (s.topMiddle g lower) (s.bottomMiddle g upper)
        (SizedGraph.route (g.boxes (g.rawOf s)) (g.rawOf s) k e)) := by
  obtain ⟨l, _, hw, hspans⟩ := hs.exists_spans h hu hl
  have haligned := aligned_withBends true (s.chainPoints c)
  rw [hw] at haligned
  cases hs.route_eq h
  case inl hr =>
    obtain ⟨hk, hsrc, htgt, heq⟩ := hr
    have hj := hspans.joins haligned
    rw [one_mul, one_mul, ← hw, ← heq] at hj
    exact .inl ⟨hk, hsrc, htgt, hj⟩
  case inr hr =>
    obtain ⟨hk, hsrc, htgt, heq⟩ := hr
    have hreverse : (withBends true (s.chainPoints c)).reverse =
        (s.nodeBox g lower).center :: l.reverse ++ [(s.nodeBox g upper).center] := by rw [hw]; simp
    have hrev := List.isChain_reverse.mpr (haligned.imp fun _ _ => Aligned.symm)
    rw [← hw, hreverse] at hrev
    have hj := hspans.reverse.joins hrev
    rw [neg_one_mul, neg_one_mul, ← sub_eq_add_neg, sub_neg_eq_add, ← hreverse, ← heq] at hj
    exact .inr ⟨hk, hsrc, htgt, hj⟩

end Stacked

namespace Route

theorem Aligned.shift {a b : Point Rat} (h : Aligned ε a b) : Aligned ε (a.shift dx dy) (b.shift dx dy) := by
  simpa only [Aligned, Point.shift, add_sub_add_right_eq_sub] using h

theorem Close.shift {a b : Point Rat} (h : Close ε a b) : Close ε (a.shift dx dy) (b.shift dx dy) := by
  simpa only [Close, Point.shift, add_sub_add_right_eq_sub] using h

theorem Joins.shift {a b : Point Rat} {l : List (Point Rat)} (h : Joins ε a b l) :
    Joins ε (a.shift dx dy) (b.shift dx dy) (l.map (Point.shift dx dy)) where
  length := by simpa using h.length
  aligned := by
    rw [List.isChain_map]
    exact h.aligned.imp fun _ _ hab => hab.shift
  start := by
    obtain ⟨q, hq, hc⟩ := h.start
    exact ⟨q.shift dx dy, by simp [hq], hc.shift⟩
  stop := by
    obtain ⟨q, hq, hc⟩ := h.stop
    exact ⟨q.shift dx dy, by simp [hq], hc.shift⟩

end Route

namespace Drawn

variable (h : Drawn g s dx dy p)
include h

-- The drawn node of an id, with the middles of its edges.
theorem exists_node? (hs : Stacked g place s) (hn : n ∈ g.nodes) : ∃ d, p.node? n.id = some d ∧
    d.topCenter = (s.topMiddle g n).shift dx dy ∧ d.bottomCenter = (s.bottomMiddle g n).shift dx dy := by
  obtain ⟨d', hd', hid', _⟩ := h.exists_drawn_node hn
  obtain ⟨d, hd⟩ := Option.isSome_iff_exists.mp
    (List.find?_isSome.mpr ⟨d', hd', by simp [hid']⟩ : (p.node? n.id).isSome)
  have hid : d.id = n.id := by simpa using List.find?_some hd
  obtain ⟨m, hm, hdm, hb⟩ := h.exists_node (List.mem_of_find?_eq_some hd)
  obtain rfl : m = n := List.inj_on_of_nodup_map hs.wellFormed.nodes_nodup hm hn (hdm.symm.trans hid)
  have hx := congrArg Bounds.left hb
  have hy := congrArg Bounds.top hb
  have hright := congrArg Bounds.right hb
  have hbottom := congrArg Bounds.bottom hb
  simp only [PlacedNode.bounds, PlacedNode.right, PlacedNode.bottom, SizedGraph.nodeBounds, Bounds.shift,
    Bounds.ofBox, Box.around] at hx hy hright hbottom
  refine ⟨d, hd, ?_, ?_⟩
  · rw [PlacedNode.topCenter, Solution.topMiddle, Point.shift, Point.mk.injEq]
    constructor <;> linarith
  · rw [PlacedNode.bottomCenter, Solution.bottomMiddle, Point.shift, Point.mk.injEq]
    constructor <;> linarith

theorem points_eq {x : (SizedEdge Rat × Nat) × PlacedEdge Rat} (hx : x ∈ g.realEdges.zip p.edges) :
    x.1 ∈ g.realEdges ∧ x.2.points =
      (SizedGraph.route (g.boxes (g.rawOf s)) (g.rawOf s) x.1.2 x.1.1).map (Point.shift dx dy) := by
  rw [h.edges, SizedGraph.placeEdges, List.map_map, ← List.map_prod_left_eq_zip, List.mem_map] at hx
  obtain ⟨y, hy, rfl⟩ := hx
  exact ⟨hy, rfl⟩

theorem exists_drawn_edge {x : SizedEdge Rat × Nat} (hx : x ∈ g.realEdges) :
    ∃ d, (x, d) ∈ g.realEdges.zip p.edges := by
  rw [h.edges, SizedGraph.placeEdges, List.map_map, ← List.map_prod_left_eq_zip]
  exact ⟨_, List.mem_map.mpr ⟨x, hx, rfl⟩⟩

end Drawn

namespace SizedGraph

-- All real edges are drawn, and those between different nodes are drawn from the bottom of the source to the top of
-- the target, or from the top of the source to the bottom of the target if they are reversed.
theorem layout_joins (h : g.layout sweeps = .ok p)
    (hr : RawLayout.ofGraph sweeps g.nodes g.edges g.spacing g.groups = .ok raw)
    (hn : ∀ n ∈ g.nodes, 1 / 1000 ≤ n.width ∧ 1 / 1000 ≤ n.height) (hs : ∀ q ∈ g.spacing.lengths, 0 ≤ q) :
    (g.nodes ≠ [] → p.edges.map (fun d => (d.source, d.target)) =
      g.realEdges.map fun x => (x.1.source, x.1.target)) ∧
    ∀ x ∈ g.realEdges.zip p.edges, x.1.1.source ≠ x.1.1.target → ∃ a b,
      p.node? x.1.1.source = some a ∧ p.node? x.1.1.target = some b ∧
      (x.1.2 ∉ raw.reversed → Joins (1 / 100000000) a.bottomCenter b.topCenter x.2.points) ∧
      (x.1.2 ∈ raw.reversed → Joins (1 / 100000000) a.topCenter b.bottomCenter x.2.points) := by
  by_cases hne : g.nodes = []
  case pos =>
    obtain rfl := layout_of_nil h hne
    exact ⟨fun hnn => absurd hne hnn, by simp⟩
  case neg =>
    obtain ⟨hw, hraw, rfl⟩ := layout_eq h hne
    obtain rfl : g.rawOf (g.solution sweeps) = raw := Except.ok.inj (hraw.symm.trans hr)
    obtain ⟨place, hst⟩ := exists_stacked hw hs (fun n hnm => le_trans (by norm_num) (hn n hnm).right) sweeps
    obtain ⟨dx, dy, hd⟩ := exists_drawn hst
    refine ⟨fun _ => ?_, fun x hx hxne => ?_⟩
    · rw [hd.edges, placeEdges, List.map_map, List.map_map]
      rfl
    · obtain ⟨hxm, hpoints⟩ := hd.points_eq hx
      have hk : x.1.1.kind = .real := by simpa using (List.mem_filter.mp hxm).right
      have hx' := List.mem_zipIdx_iff_getElem?.mp (List.mem_of_mem_filter hxm)
      obtain ⟨upper, lower, c, hc⟩ := hst.exists_chainOf hx' hk hxne
      have thick {n : SizedNode Rat} (hnm : n ∈ g.nodes) : Thick ((g.solution sweeps).nodeBox g n) := by
        obtain ⟨hwn, hhn⟩ := hn n hnm
        constructor <;> simp only [Solution.nodeBox, Box.around] <;> linarith
      obtain ⟨a, ha, hatop, habottom⟩ := hd.exists_node? hst hc.upper_mem
      obtain ⟨b, hb, hbtop, hbbottom⟩ := hd.exists_node? hst hc.lower_mem
      cases hst.joins_route hc (thick hc.upper_mem) (thick hc.lower_mem)
      case inl hj =>
        obtain ⟨hk, hsrc, htgt, hj⟩ := hj
        refine ⟨a, b, hsrc ▸ ha, htgt ▸ hb, fun _ => ?_, fun hr => absurd hr hk⟩
        rw [hpoints, habottom, hbtop]
        exact hj.shift
      case inr hj =>
        obtain ⟨hk, hsrc, htgt, hj⟩ := hj
        refine ⟨b, a, hsrc ▸ hb, htgt ▸ ha, fun hr => absurd hk hr, fun _ => ?_⟩
        rw [hpoints, habottom, hbtop]
        exact hj.shift

theorem layout_joins_nestedGroups : ∃ p raw, Arrangement.nestedGroups.layout 4 = .ok p ∧
    RawLayout.ofGraph 4 Arrangement.nestedGroups.nodes Arrangement.nestedGroups.edges
      Arrangement.nestedGroups.spacing Arrangement.nestedGroups.groups = .ok raw ∧
    (∀ n ∈ Arrangement.nestedGroups.nodes, 1 / 1000 ≤ n.width ∧ 1 / 1000 ≤ n.height) ∧
    (∀ q ∈ Arrangement.nestedGroups.spacing.lengths, 0 ≤ q) ∧
    ∀ x ∈ Arrangement.nestedGroups.realEdges.zip p.edges, x.1.1.source ≠ x.1.1.target → 2 ≤ x.2.points.length := by
  obtain ⟨p, hp⟩ := Arrangement.exists_layout_nestedGroups
  have hne : Arrangement.nestedGroups.nodes ≠ [] := by simp [Arrangement.nestedGroups]
  obtain ⟨_, hraw, _⟩ := layout_eq hp hne
  have hn : ∀ n ∈ Arrangement.nestedGroups.nodes, 1 / 1000 ≤ n.width ∧ 1 / 1000 ≤ n.height := by
    simp only [Arrangement.nestedGroups]
    norm_num
  have hs : ∀ q ∈ Arrangement.nestedGroups.spacing.lengths, 0 ≤ q := fun q hq =>
    (Arrangement.measured_nestedGroups.spacing q hq).nonneg
  refine ⟨p, _, hp, hraw, hn, hs, fun x hx hxne => ?_⟩
  obtain ⟨a, b, _, _, hforwards, hbackwards⟩ := (layout_joins hp hraw hn hs).right x hx hxne
  by_cases hr : x.1.2 ∈ (Arrangement.nestedGroups.rawOf (Arrangement.nestedGroups.solution 4)).reversed
  case pos => exact (hbackwards hr).length
  case neg => exact (hforwards hr).length

end SizedGraph

end LayeredDiagram
