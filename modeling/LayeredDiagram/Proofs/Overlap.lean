import LayeredDiagram.Proofs.Placement
/-!
Boxes of nodes and boxes kept free for labels do not overlap. A label stands in the room of a bend of its edge,
or, for a loop, in the room of the node, outside the loops before it.
-/

namespace LayeredDiagram

open LayeredDiagram.Group

variable {g : SizedGraph Rat} {place : String → Nat} {s : Solution Rat} {p : PlacedGraph Rat}
variable {n : SizedNode Rat} {i : Item Rat} {l : Loop Rat} {e : SizedEdge Rat} {anchor : Point Rat}
variable {b c : Bounds Rat} {k r : Nat}

namespace SizedEdge

-- The box kept free for a label.
def labelBounds (e : SizedEdge Rat) (anchor : Point Rat) : Bounds Rat :=
  Bounds.ofBox (Box.around anchor e.labelWidth e.labelHeight)

end SizedEdge

namespace SizedGraph

-- No label of a loop is taller than the node of the loop.
def HasLowLoops (g : SizedGraph Rat) : Prop :=
  ∀ e ∈ g.edges, e.isLoop → e.hasLabel → ∀ n ∈ g.nodes, n.id = e.source → e.labelHeight ≤ n.height

-- The boxes kept free for the labels of a drawn graph.
def reserved (g : SizedGraph Rat) (p : PlacedGraph Rat) : List (Bounds Rat) :=
  (g.realEdges.zip p.edges).filterMap fun (e, drawn) => drawn.labelAnchor.map e.1.labelBounds

end SizedGraph

-- A box kept free for the label of the edge at an index.
inductive Reserved (g : SizedGraph Rat) (s : Solution Rat) (k : Nat) (b : Bounds Rat) : Prop
  | bend {i : Item Rat} {r : Nat} (mem : i ∈ s.stock.items) (slot : i.slot = .bend k r) (within : b.Within (s.room i))
  | loop {l : Loop Rat} {n : SizedNode Rat} (mem : l ∈ s.stock.loops) (edge : l.edge = k) (node_mem : n ∈ g.nodes)
      (node : n.id = l.node) (left : (g.nodeBounds s n).right + l.inner ≤ b.left)
      (right : b.right ≤ (g.nodeBounds s n).right + l.outer) (within : b.Within (s.room (g.itemOf n)))

namespace Solved

variable (hs : Solved g place s)
include hs

theorem loops_eq : s.stock.loops = Loop.all g.spacing g.edges := by
  rw [hs.stock_eq]
  rfl

theorem nested_loops : Loop.Nested s.stock.loops := by
  rw [hs.loops_eq]
  exact Loop.nested_all (hs.measured.spacing _ (by simp [Spacing.lengths])) fun e he => (hs.measured.edges e he).left

-- The label of a chain is one of its bends.
theorem label_of_chain {ch : Chain Rat} (hc : ch ∈ s.stock.chains) (hi : ch.items.find? (·.kind = .label) = some i)
    (he : g.edges[ch.edge]? = some e) : i ∈ s.stock.items ∧ i.slot = .bend ch.edge i.rank ∧ e.hasLabel ∧
      i.width = e.labelWidth ∧ i.height = e.labelHeight := by
  have hk : i.kind = .label := by simpa using List.find?_some hi
  have hm := List.mem_of_find?_eq_some hi
  rw [hs.stock_eq] at hc
  have ⟨o, _, _, _, upper, lower, hco⟩ := Chain.exists_orientation_of_mem hc he
  have hb := Chain.bendAt_of_mem_bends (hco.inner_eq ▸ hco.mem_inner_of_label hm hk)
  have hoe : o.index = ch.edge := by rw [hco.eq]
  refine ⟨hs.stock_eq ▸ Stock.mem_items_of_mem_chain hc hm, hoe ▸ hb.slot, ?_⟩
  rcases hb.kind with ⟨_, hl, hw, hh⟩ | ⟨hd, _⟩
  · exact ⟨hl, hw, hh⟩
  · rw [hk] at hd
    cases hd

-- The label of a loop stands outside the loops before it, and within the reach of the node.
theorem reserved_of_loop (hg : g.HasLowLoops) (hl : l ∈ s.stock.loops) (hn : n ∈ g.nodes) (hnl : n.id = l.node)
    (he : g.edges[l.edge]? = some e) (hb : e.hasLabel) : Reserved g s l.edge
      (e.labelBounds (Solution.loopAnchor g.spacing.selfLoop n (s.center (g.itemOf n)) l e)) := by
  obtain ⟨_, hloop, hsrc, ho⟩ := Loop.edge_spec (hs.loops_eq ▸ hl) he
  have hem := List.mem_of_getElem? he
  have hlow := hg e hem hloop hb n hn (hnl.trans hsrc)
  have hself := hs.nonneg (q := g.spacing.selfLoop) (by simp [Spacing.lengths])
  have hgap : (Loop.labelGap : Rat) = 4 := rfl
  have hin := (hs.nested_loops.isMeasure_inner l hl).nonneg
  have hw := (hs.measured.nodes n hn).left.nonneg
  have hreach : l.outer ≤ (g.itemOf n).extra := by
    have := hs.nested_loops.le_reach l hl
    rwa [hs.loops_eq, ← hnl] at this
  have hwi : (g.itemOf n).width = n.width := rfl
  have hhi : (g.itemOf n).height = n.height := rfl
  rw [Loop.room, if_pos hb, hgap] at ho
  refine .loop hl rfl hn hnl ?_ ?_ ?_
  · simp only [SizedEdge.labelBounds, Bounds.ofBox, Box.around, Solution.loopAnchor, SizedGraph.nodeBounds, hgap]
    linarith
  · simp only [SizedEdge.labelBounds, Bounds.ofBox, Box.around, Solution.loopAnchor, SizedGraph.nodeBounds, hgap]
    linarith
  · constructor <;> simp only [SizedEdge.labelBounds, Bounds.ofBox, Box.around, Solution.loopAnchor, Solution.room,
      Solution.center, Item.leftEdge, Item.rightEdge, hwi, hhi, hgap] <;> linarith

theorem loopData?_eq_some {center : Point Rat} (h : s.loopData? g.nodes g.edges l = some (n, center, e)) :
    n ∈ g.nodes ∧ n.id = l.node ∧ center = s.center (g.itemOf n) ∧ g.edges[l.edge]? = some e := by
  obtain ⟨hn, ⟨i, hi, rfl⟩, he⟩ := Solution.loopData?_eq_some_iff.mp h
  have hnm := List.mem_of_find?_eq_some hn
  have hid : n.id = l.node := by simpa using List.find?_some hn
  have hslot : i.slot = .node l.node := by simpa using List.find?_some hi
  obtain rfl := hs.eq_of_slot_eq (List.mem_of_find?_eq_some hi) (hs.itemOf_mem hnm) (by rw [hslot, ← hid]; rfl)
  exact ⟨hnm, hid, rfl, he⟩

-- An anchor is the centre of the bend with the label, or stands beside the node of a loop.
theorem labelAnchors_cases (he : g.edges[k]? = some e)
    (ha : (k, anchor) ∈ s.labelAnchors g.nodes g.edges g.spacing.selfLoop) :
    (∃ ch ∈ s.stock.chains, ch.edge = k ∧ ∃ i, ch.items.find? (·.kind = .label) = some i ∧ anchor = s.center i) ∨
    ∃ l ∈ s.stock.loops, l.edge = k ∧ e.hasLabel ∧ ∃ n ∈ g.nodes, n.id = l.node ∧
      anchor = Solution.loopAnchor g.spacing.selfLoop n (s.center (g.itemOf n)) l e := by
  cases List.mem_append.mp ha
  case inl h =>
    have ⟨ch, hc, hi⟩ := List.mem_filterMap.mp h
    have ⟨i, hf, hik⟩ := Option.map_eq_some_iff.mp hi
    obtain ⟨rfl, rfl⟩ := Prod.mk.inj hik
    exact .inl ⟨ch, hc, rfl, i, hf, rfl⟩
  case inr h =>
    have ⟨l, hl, hd⟩ := List.mem_filterMap.mp h
    split at hd
    case h_1 n center e' hdata =>
      obtain ⟨hn, hnl, rfl, he'⟩ := hs.loopData?_eq_some hdata
      split at hd
      case isTrue hb =>
        obtain ⟨rfl, rfl⟩ := Prod.mk.inj (Option.some.inj hd)
        obtain rfl : e' = e := Option.some.inj (he'.symm.trans he)
        exact .inr ⟨l, hl, rfl, hb, n, hn, hnl, rfl⟩
      case isFalse => cases hd
    case h_2 => cases hd

theorem reserved_of_lookup (hg : g.HasLowLoops) (he : g.edges[k]? = some e)
    (ha : (s.labelAnchors g.nodes g.edges g.spacing.selfLoop).lookup k = some anchor) :
    Reserved g s k (e.labelBounds anchor) := by
  rcases hs.labelAnchors_cases he (mem_of_lookup ha) with ⟨ch, hc, rfl, i, hi, rfl⟩ | ⟨l, hl, rfl, hb, n, hn, hnl, rfl⟩
  · have ⟨him, hslot, _, hw, hh⟩ := hs.label_of_chain hc hi he
    refine .bend him hslot ?_
    rw [SizedEdge.labelBounds, ← hw, ← hh]
    exact hs.around_within_room him
  · exact hs.reserved_of_loop hg hl hn hnl he hb

-- Room is kept for every label, and for nothing else.
theorem isSome_labelAnchors_iff (he : g.edges[k]? = some e) (hk : e.kind = .real) :
    ((s.labelAnchors g.nodes g.edges g.spacing.selfLoop).lookup k).isSome ↔ e.hasLabel :=
  Solution.isSome_lookup_labelAnchors_iff hs.wellFormed hs.stock_eq _ he hk

end Solved

namespace Reserved

theorem apart_node (hs : Solved g place s) (hn : n ∈ g.nodes) (h : Reserved g s k b) :
    (g.nodeBounds s n).Apart b := by
  have hnr := hs.nodeBounds_within_room hn
  cases h
  case bend i r hi hslot hw =>
    exact hs.apart_of_slot_ne (hs.itemOf_mem hn) hi (by simp [SizedGraph.itemOf, hslot]) hnr hw
  case loop l m hl _ hm _ hleft _ hw =>
    by_cases hnm : n = m
    case pos =>
      have := (hs.nested_loops.isMeasure_inner l hl).nonneg
      refine .inl (le_trans ?_ hleft)
      rw [hnm]
      linarith
    case neg =>
      exact hs.apart_of_slot_ne (hs.itemOf_mem hn) (hs.itemOf_mem hm) (hs.slot_itemOf_ne hn hm hnm) hnr hw

-- Labels of one node stand in the order of its loops.
theorem apart (hs : Solved g place s) (h : Reserved g s k b) (h' : Reserved g s r c) (hkr : k ≠ r) :
    b.Apart c := by
  cases h
  case bend i _ hi hslot hw =>
    cases h'
    case bend j _ hj hslot' hw' => exact hs.apart_of_slot_ne hi hj (by simp [hslot, hslot', hkr]) hw hw'
    case loop m _ _ hm _ _ _ hw' =>
      exact hs.apart_of_slot_ne hi (hs.itemOf_mem hm) (by simp [SizedGraph.itemOf, hslot]) hw hw'
  case loop l n hl hlk hn hnl hleft hright hw =>
    cases h'
    case bend i _ hi hslot hw' =>
      exact hs.apart_of_slot_ne (hs.itemOf_mem hn) hi (by simp [SizedGraph.itemOf, hslot]) hw hw'
    case loop l' m hl' hlk' hm hml hleft' hright' hw' =>
      by_cases hnm : n = m
      case pos =>
        subst hnm
        have hll : l ≠ l' := by
          rintro rfl
          exact hkr (hlk.symm.trans hlk')
        cases rel_or_rel_of_pairwise hs.nested_loops.pairwise hl hl' hll
        case inl hle =>
          have := hle (hnl.symm.trans hml)
          exact .inl (by linarith)
        case inr hle =>
          have := hle (hml.symm.trans hnl)
          exact .inr (.inl (by linarith))
      case neg =>
        exact hs.apart_of_slot_ne (hs.itemOf_mem hn) (hs.itemOf_mem hm) (hs.slot_itemOf_ne hn hm hnm) hw hw'

end Reserved

namespace SizedGraph

theorem getElem?_of_mem_realEdges {x : SizedEdge Rat × Nat} (hx : x ∈ g.realEdges) : g.edges[x.2]? = some x.1 :=
  List.mem_zipIdx_iff_getElem?.mp (List.mem_of_mem_filter hx)

-- The labels of the output are those of the edges that have anchors.
theorem reserved_eq {raw : RawLayout Rat} {dx dy : Rat} (h : p.edges = (g.placeEdges raw).map (·.shift dx dy)) :
    g.reserved p = (SizedGraph.labelBounds g raw).map (Bounds.shift dx dy) := by
  rw [reserved, h, placeEdges, List.map_map, ← List.map_prod_left_eq_zip, List.filterMap_map, labelBounds,
    List.map_filterMap]
  refine List.filterMap_congr fun x _ => ?_
  simp only [Function.comp, PlacedEdge.shift, Option.map_map]
  exact congrArg (Option.map · _) (funext fun anchor => (Bounds.shift_ofBox_around anchor ..).symm)

theorem map_labelAnchor {raw : RawLayout Rat} {dx dy : Rat} (h : p.edges = (g.placeEdges raw).map (·.shift dx dy))
    (hl : ∀ x ∈ g.realEdges, (raw.labelAnchors.lookup x.2).isSome ↔ x.1.hasLabel) :
    p.edges.map (·.labelAnchor.isSome) = g.realEdges.map fun x => x.1.hasLabel := by
  rw [h, placeEdges, List.map_map, List.map_map]
  refine List.map_congr_left fun x hx => ?_
  simp only [Function.comp, PlacedEdge.shift, Option.isSome_map]
  exact Bool.eq_iff_iff.mpr (hl x hx)

theorem kind_of_mem_realEdges {x : SizedEdge Rat × Nat} (hx : x ∈ g.realEdges) : x.1.kind = .real := by
  simpa using (List.mem_filter.mp hx).right

end SizedGraph

namespace Drawn

variable {dx dy : Rat} (h : Drawn g s dx dy p)
include h

theorem reserved_eq : g.reserved p = (g.realEdges.filterMap fun (e, k) =>
    ((g.rawOf s).labelAnchors.lookup k).map e.labelBounds).map (Bounds.shift dx dy) :=
  SizedGraph.reserved_eq h.edges

theorem map_labelAnchor (hs : Solved g place s) :
    p.edges.map (·.labelAnchor.isSome) = g.realEdges.map fun x => x.1.hasLabel :=
  SizedGraph.map_labelAnchor h.edges fun _ hx =>
    hs.isSome_labelAnchors_iff (SizedGraph.getElem?_of_mem_realEdges hx) (SizedGraph.kind_of_mem_realEdges hx)

omit h in
theorem nodeBounds_apart (hs : Solved g place s) : (g.nodes.map (g.nodeBounds s)).Pairwise Bounds.Apart := by
  refine List.pairwise_map.mpr ((List.Nodup.of_map _ hs.wellFormed.nodes_nodup).imp_of_mem fun hn hm hnm => ?_)
  exact hs.apart_of_slot_ne (hs.itemOf_mem hn) (hs.itemOf_mem hm) (hs.slot_itemOf_ne hn hm hnm)
    (hs.nodeBounds_within_room hn) (hs.nodeBounds_within_room hm)

theorem nodes_apart (hs : Solved g place s) : (p.nodes.map (·.bounds)).Pairwise Bounds.Apart := by
  rw [h.map_bounds, List.pairwise_map]
  simp only [Bounds.apart_shift_iff]
  exact nodeBounds_apart hs

theorem boxes_apart (hs : Solved g place s) (hl : g.HasLowLoops) :
    (p.nodes.map (·.bounds) ++ g.reserved p).Pairwise Bounds.Apart := by
  rw [h.map_bounds, h.reserved_eq, ← List.map_append, List.pairwise_map]
  simp only [Bounds.apart_shift_iff]
  have label {x : SizedEdge Rat × Nat} {anchor : Point Rat} (hx : x ∈ g.realEdges)
      (ha : (g.rawOf s).labelAnchors.lookup x.2 = some anchor) : Reserved g s x.2 (x.1.labelBounds anchor) :=
    hs.reserved_of_lookup hl (SizedGraph.getElem?_of_mem_realEdges hx) ha
  -- an edge has at most one label, so that different labels belong to different indices
  have hindex : g.realEdges.Pairwise fun x y => x.2 ≠ y.2 := by
    have hz : (g.edges.zipIdx.map (·.2)).Nodup := by
      rw [List.zipIdx_map_snd]
      exact List.nodup_range'
    exact (List.pairwise_map.mp hz).sublist List.filter_sublist
  refine List.pairwise_append.mpr ⟨nodeBounds_apart hs, ?labels, ?both⟩
  case labels =>
    refine List.pairwise_filterMap.mpr (hindex.imp_of_mem fun {x y} hx hy hxy b hb c hc => ?_)
    obtain ⟨p, hp, rfl⟩ := Option.map_eq_some_iff.mp hb
    obtain ⟨q, hq, rfl⟩ := Option.map_eq_some_iff.mp hc
    exact (label hx hp).apart hs (label hy hq) hxy
  case both =>
    intro b hb c hc
    obtain ⟨n, hn, rfl⟩ := List.mem_map.mp hb
    obtain ⟨x, hx, hc⟩ := List.mem_filterMap.mp hc
    obtain ⟨q, hq, rfl⟩ := Option.map_eq_some_iff.mp hc
    exact (label hx hq).apart_node hs hn

end Drawn

namespace SizedGraph

-- All nodes are drawn with their sizes and all labels have their room, and none of these boxes overlap.
theorem layout_boxes_apart {sweeps : Nat} (hn : g.nodes ≠ []) (h : g.layout sweeps = .ok p)
    (hm : Measured g.nodes g.edges g.spacing) (hl : g.HasLowLoops) :
    p.nodes.map (fun d => (d.id, d.width, d.height)) = g.nodes.map (fun n => (n.id, n.width, n.height)) ∧
    p.edges.map (·.labelAnchor.isSome) = g.realEdges.map (fun x => x.1.hasLabel) ∧
    (p.nodes.map (·.bounds) ++ g.reserved p).Pairwise Bounds.Apart := by
  rcases exists_drawn_of_layout h hm with ⟨he, _⟩ | ⟨place, s, dx, dy, hs, hd⟩
  · exact absurd he hn
  · exact ⟨hd.sizes, hd.map_labelAnchor hs, hd.boxes_apart hs hl⟩

theorem layout_boxes_apart_nestedGroups : Arrangement.nestedGroups.nodes ≠ [] ∧
    ∃ p, Arrangement.nestedGroups.layout 4 = .ok p ∧
    Measured Arrangement.nestedGroups.nodes Arrangement.nestedGroups.edges Arrangement.nestedGroups.spacing ∧
    Arrangement.nestedGroups.HasLowLoops ∧
    (p.nodes.map (·.bounds) ++ Arrangement.nestedGroups.reserved p).Pairwise Bounds.Apart := by
  obtain ⟨p, hp⟩ := Arrangement.exists_layout_nestedGroups
  have hn : Arrangement.nestedGroups.nodes ≠ [] := by simp [Arrangement.nestedGroups]
  have hl : Arrangement.nestedGroups.HasLowLoops := by
    unfold HasLowLoops
    decide
  obtain ⟨_, _, ha⟩ := layout_boxes_apart hn hp Arrangement.measured_nestedGroups hl
  exact ⟨hn, p, hp, Arrangement.measured_nestedGroups, hl, ha⟩

end SizedGraph

end LayeredDiagram
