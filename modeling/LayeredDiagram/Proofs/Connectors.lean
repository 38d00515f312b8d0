import LayeredDiagram.Proofs.CellPaths
import LayeredDiagram.Proofs.Columns
import LayeredDiagram.Proofs.LabelText
import LayeredDiagram.Proofs.Pictures
import LayeredDiagram.Proofs.StraightDrawings
/-!
Connectors and labels of text art. Where the gap between ranks is at least two cells, sideways runs have a row of their
own, and connectors take no cell of a box. A label is centred in the room that is kept for it, with a blank on either
side that makes up for what is lost by rounding.
-/

namespace LayeredDiagram

open LayeredDiagram.Group Route

variable {g : SizedGraph Rat} {place : String → Nat} {s : Solution Rat} {p : PlacedGraph Rat}
variable {upper lower n : SizedNode Rat} {c : Chain Rat} {e : SizedEdge Rat} {i j : Item Rat}
variable {k : Nat} {dx dy : Rat}

section Descent

open TextArt

-- The least sizes of boxes with a text in a frame.
def SizedGraph.HasBoxes (g : SizedGraph Rat) : Prop :=
  ∀ n ∈ g.nodes, 4 ≤ n.width ∧ 2 ≤ n.height

theorem SizedGraph.HasBoxes.hasThickNodes (h : g.HasBoxes) : g.HasThickNodes := fun n hn => by
  obtain ⟨_, _⟩ := h n hn
  constructor <;> linarith

-- A route from its upper to its lower end.
structure RunsDown (g : SizedGraph Rat) (s : Solution Rat) (c : Chain Rat) (upper lower : SizedNode Rat) (a : Point Rat)
    (m : List (Point Rat)) (b : Point Rat) : Prop where
  start : a.y = (g.nodeBounds s upper).bottom
  stop : b.y = (g.nodeBounds s lower).top
  near_start : |a.x - (s.center (g.itemOf upper)).x| ≤ 1 / 100000000
  near_stop : |b.x - (s.center (g.itemOf lower)).x| ≤ 1 / 100000000
  turns : ∀ p ∈ m, ∃ seg ∈ c.segments, p.y = (s.arrival seg).y
  aligned : (a :: m ++ [b]).IsChain (Aligned (1 / 100000000))

namespace Stacked

variable (hs : Stacked g place s) (h : ChainOf g s e k upper lower c) (hn : g.HasThickNodes)
include hs h hn

-- Drawn against its direction, an edge has such a route from its target to its source.
theorem exists_runsDown : ∃ a m b, RunsDown g s c upper lower a m b ∧
    ((upper.id = e.source ∧ lower.id = e.target ∧
        SizedGraph.route (g.boxes (g.rawOf s)) (g.rawOf s) k e = a :: m ++ [b]) ∨
      (lower.id = e.source ∧ upper.id = e.target ∧
        SizedGraph.route (g.boxes (g.rawOf s)) (g.rawOf s) k e = (a :: m ++ [b]).reverse)) := by
  obtain ⟨l, hy, hw, hspans⟩ := hs.exists_spans h (hn.thick h.upper_mem) (hn.thick h.lower_mem)
  have haligned := aligned_withBends true (s.chainPoints c)
  rcases hs.route_eq h with ⟨_, hsource, htarget, heq⟩ | ⟨_, hsource, htarget, heq⟩
  · rw [hw] at heq haligned
    obtain ⟨a, m, b, hclip, hml, halong, hay, hby, hax, hbx⟩ := hspans.exists_route haligned
    rw [one_mul] at hay hby
    refine ⟨a, m, b, ⟨hay, hby, hax, hbx, fun p hp => hy p (hml hp), halong⟩, .inl ⟨hsource, htarget, ?_⟩⟩
    rw [heq, hclip]
  · have hreverse : (withBends true (s.chainPoints c)).reverse =
        (s.nodeBox g lower).center :: l.reverse ++ [(s.nodeBox g upper).center] := by rw [hw]; simp
    have hrev := List.isChain_reverse.mpr (haligned.imp fun _ _ => Aligned.symm)
    rw [hreverse] at heq hrev
    obtain ⟨b, m, a, hclip, hml, halong, hby, hay, hbx, hax⟩ := hspans.reverse.exists_route hrev
    rw [neg_one_mul, ← sub_eq_add_neg] at hby
    rw [neg_one_mul, sub_neg_eq_add] at hay
    have hback : b :: m ++ [a] = (a :: m.reverse ++ [b]).reverse := by simp
    rw [hback] at halong hclip
    refine ⟨a, m.reverse, b, ⟨hay, hby, hax, hbx, fun p hp => ?_, ?_⟩, .inr ⟨hsource, htarget, heq.trans hclip⟩⟩
    · exact hy p (List.mem_reverse.mp (hml (List.mem_reverse.mp hp)))
    · exact (List.isChain_reverse.mp halong).imp fun _ _ => Aligned.symm

-- Where no segment is slanted, the route stays in the column of its nodes.
theorem x_eq_of_mem_route (hx : Abscissae.Upright s.stock.segments s.x) {q : Point Rat}
    (hq : q ∈ SizedGraph.route (g.boxes (g.rawOf s)) (g.rawOf s) k e) :
    q.x = s.x.value (.item (g.itemOf upper).slot) := by
  obtain ⟨sign, first, last, l, hspans, _, heq, hends⟩ :=
    hs.exists_route_eq h (hn.thick h.upper_mem) (hn.thick h.lower_mem)
  obtain ⟨o, hc⟩ := h.connects
  have hpoints : ∀ p ∈ s.chainPoints c, p.x = s.x.value (.item (g.itemOf upper).slot) := fun p hp =>
    hc.x_eq_of_upright (fun seg hseg => hx seg (List.mem_flatMap.mpr ⟨c, h.mem, hseg⟩)) hp
  have hall : ∀ p ∈ first.center :: l ++ [last.center], p.x = s.x.value (.item (g.itemOf upper).slot) := by
    rcases hends with ⟨_, _, _, hw⟩ | ⟨_, _, _, hw⟩
    all_goals rw [withBends_of_x_eq hpoints] at hw
    · exact hw ▸ hpoints
    · exact hw ▸ fun p hp => hpoints p (List.mem_reverse.mp hp)
  exact hspans.x_eq_of_mem_clip hall q (heq ▸ hq)

end Stacked

namespace RunsDown

variable {a b : Point Rat} {m : List (Point Rat)} (hr : RunsDown g s c upper lower a m b)
variable (h : ChainOf g s e k upper lower c)
include hr h

-- A turn is in the middle of the gap between two neighbouring ranks.
theorem exists_segment (hs : Stacked g place s) {p : Point Rat} (hp : p ∈ m) : ∃ seg : Segment Rat,
    p.y = (s.arrival seg).y ∧ seg.upper ∈ s.stock.items ∧ seg.lower ∈ s.stock.items ∧
      (g.itemOf upper).rank ≤ seg.upper.rank ∧ seg.lower.rank = seg.upper.rank + 1 ∧
      seg.lower.rank ≤ (g.itemOf lower).rank := by
  obtain ⟨o, hc⟩ := h.connects
  obtain ⟨seg, hseg, hpy⟩ := hr.turns p hp
  obtain ⟨hu, hl, hranks⟩ := hc.rank_of_mem_segments h.rank_lt hseg
  exact ⟨seg, hpy, hs.mem_items_of_mem_chain h.mem hu, hs.mem_items_of_mem_chain h.mem hl, hranks⟩

theorem descends (hs : Solved g place s) (hd : g.spacing.Clearance (forest [] g.groups) (3 / 2))
    (hn : g.HasBoxes) (hgap : 1 ≤ g.spacing.rank)
    (hbent : m = [] ∨ 2 ≤ g.spacing.rank)
    (hroute : ∀ q, Passes (a :: m ++ [b]) q → Passes (SizedGraph.route (g.boxes (g.rawOf s)) (g.rawOf s) k e) q) :
    Descends (g.nodes.map (g.nodeBounds s)) (g.nodeBounds s upper) (g.nodeBounds s lower) a m b := by
  have hum := hs.itemOf_mem h.upper_mem
  have hlm := hs.itemOf_mem h.lower_mem
  obtain ⟨hwidth, hheight⟩ := hn lower h.lower_mem
  obtain ⟨hbl, hbr⟩ := abs_le.mp hr.near_stop
  have half {p : Point Rat} (hp : p ∈ m) : 1 ≤ g.spacing.rank / 2 := by
    have := hbent.resolve_left (List.ne_nil_of_mem hp)
    linarith
  constructor
  case start => exact hr.start
  case stop => exact hr.stop
  case left =>
    simp only [SizedGraph.nodeBounds, Bounds.ofBox, Box.around]
    linarith
  case right =>
    simp only [SizedGraph.nodeBounds, Bounds.ofBox, Box.around]
    linarith
  case height =>
    simp only [SizedGraph.nodeBounds, Bounds.ofBox, Box.around]
    linarith
  case gap =>
    have hrank := hs.bandBottom_add_rank_le hum hlm h.rank_lt
    have hbottom : (g.nodeBounds s upper).bottom ≤ _ := hs.room_le_bandBottom hum
    have htop : _ ≤ (g.nodeBounds s lower).top := hs.bandTop_le_room hlm
    linarith
  case below =>
    intro p hp
    obtain ⟨seg, hpy, hu, hl, hur, hrank, _⟩ := hr.exists_segment h hs.toStacked hp
    have : (g.nodeBounds s upper).bottom + _ ≤ _ := hs.room_bottom_le_arrival hu hl hrank hum hur
    linarith [half hp]
  case above =>
    intro p hp
    obtain ⟨seg, hpy, hu, hl, _, hrank, hlr⟩ := hr.exists_segment h hs.toStacked hp
    have : _ ≤ (g.nodeBounds s lower).top := hs.arrival_le_room_top hu hl hrank hlm hlr
    linarith [half hp]
  case turns =>
    intro p hp r hbox
    obtain ⟨n, hnm, rfl⟩ := List.mem_map.mp hbox
    obtain ⟨seg, hpy, hu, hl, _, hrank, _⟩ := hr.exists_segment h hs.toStacked hp
    by_cases hle : (g.itemOf n).rank ≤ seg.upper.rank
    case pos =>
      have : (g.nodeBounds s n).bottom + _ ≤ _ := hs.room_bottom_le_arrival hu hl hrank (hs.itemOf_mem hnm) hle
      exact .inl (by linarith)
    case neg =>
      have : _ ≤ (g.nodeBounds s n).top := hs.arrival_le_room_top hu hl hrank (hs.itemOf_mem hnm) (by omega)
      exact .inr (by linarith [half hp])
  case beside =>
    intro q hq r hbox htop hbottom
    obtain ⟨n, hnm, rfl⟩ := List.mem_map.mp hbox
    obtain ⟨hleft, _, hright, _⟩ := hs.nodeBounds_within_room hnm
    simp only [Solution.room] at hleft hright
    have hor := hs.apart_of_passes h hd (hs.itemOf_mem hnm) hn.hasThickNodes
      (fun n hnm => by linarith [(hn n hnm).left]) (by simp [SizedGraph.itemOf]) (hroute q hq) htop hbottom
    rw [tolerance_eq] at hor
    exact hor.imp (fun _ => by linarith) fun _ => by linarith

end RunsDown

end Descent

section Drawings

namespace Drawn

variable (h : Drawn g s dx dy p)
include h

theorem exists_edge {d : PlacedEdge Rat} (hd : d ∈ p.edges) : ∃ x ∈ g.realEdges,
    d.source = x.1.source ∧ d.target = x.1.target ∧ d.label = x.1.label ∧
    d.points = (SizedGraph.route (g.boxes (g.rawOf s)) (g.rawOf s) x.2 x.1).map (Point.shift dx dy) ∧
    d.labelAnchor = ((g.rawOf s).labelAnchors.lookup x.2).map (Point.shift dx dy) := by
  rw [h.edges, SizedGraph.placeEdges, List.map_map] at hd
  obtain ⟨x, hx, rfl⟩ := List.mem_map.mp hd
  exact ⟨x, hx, rfl, rfl, rfl, rfl, rfl⟩

end Drawn

theorem SizedGraph.length_realEdges (g : SizedGraph Rat) :
    g.realEdges.length = (g.edges.filter fun e => e.kind = .real).length := by
  rw [← g.map_fst_realEdges, List.length_map]

namespace TextArt

open CellRect

-- A path outside all boxes, with its first and its last cell, its bends and every cell on the way.
structure Outside (rects : List (String × CellRect)) (cells : List Cell) : Prop where
  two_le_length : 2 ≤ cells.length
  bends : ∀ z ∈ cells, ∀ x ∈ rects, ¬x.2.contains z
  runs : ∀ j ∈ Join.visits (Canvas.bends cells), ∀ x ∈ rects, ¬x.2.contains j.cell

theorem Outside.of_free {rects : List (String × CellRect)} {boxes : List (Bounds Rat)} {cells : List Cell}
    (hrects : ∀ x ∈ rects, ∃ r ∈ boxes, x.2 = ofBounds r) (hl : 2 ≤ cells.length)
    (hc : cells.IsChain (Free boxes)) : Outside rects cells where
  two_le_length := hl
  bends z hz x hx := by
    obtain ⟨r, hr, heq⟩ := hrects x hx
    exact heq ▸ Free.not_contains_of_mem hc hl z hz r hr
  runs := by
    refine Join.forall_visits (P := fun z => ∀ x ∈ rects, ¬x.2.contains z) (Canvas.isChain_bends hc) ?_
    intro a b hab j hj x hx
    obtain ⟨r, hr, heq⟩ := hrects x hx
    exact heq ▸ hab.not_contains _ (Join.between_of_mem_run hab.straight hj) r hr

section Sizes

variable {c : Config Rat} {d : Diagram}

-- Every drawn edge has its look.
theorem length_connectors_planOf (c : Config Rat) (d : Diagram) :
    (planOf c d).connectors.length = (planOf c d).graph.realEdges.length := by
  rw [SizedGraph.length_realEdges]
  cases d
  case c4 d =>
    simp [planOf, ofC4, graphOf, List.filter_flatMap, C4.Relationship.filter_real_edges]
  case archimate d =>
    simp only [planOf, ofArchiMate, graphOf, List.filter_append, ArchiMate.Diagram.filter_real_orderingEdges]
    rw [SizedEdge.filter_real_map fun _ => rfl, List.nil_append, List.length_map, List.length_map]
  case classDiagram d =>
    simp only [planOf, ofClassDiagram, graphOf]
    rw [SizedEdge.filter_real_map fun _ => rfl, List.length_map, List.length_map]

theorem Figure.four_le_width (f : Figure) : 4 ≤ f.width := by
  simp only [width, Sections.boxWidth, textPadding]
  omega

theorem Figure.two_le_height (f : Figure) : 2 ≤ f.height := by
  simp only [height, Sections.boxHeight]
  split <;> omega

theorem hasBoxes_planOf (c : Config Rat) (d : Diagram) : (planOf c d).graph.HasBoxes := by
  intro n hn
  obtain ⟨f, _, rfl⟩ := List.mem_map.mp (nodes_planOf c d ▸ hn)
  simp only [Figure.node]
  exact ⟨by exact_mod_cast f.four_le_width, by exact_mod_cast f.two_le_height⟩

-- Room is kept for a blank on either side of a label.
theorem label_size {label : String} (he : e ∈ (planOf c d).graph.edges) (hl : e.label.filter (· ≠ "") = some label) :
    e.labelWidth = Text.displayWidth label + 2 ∧ e.labelHeight = 1 := by
  obtain ⟨hl, hne⟩ := Option.filter_eq_some_iff.mp hl
  rcases mem_edges_planOf he with ⟨_, _, shown, rfl⟩ | ⟨_, _, _, rfl⟩
  · obtain rfl : shown = some label := hl
    have hne : label ≠ "" := by simpa using hne
    simp [labelledEdge, SizedEdge.labelled, hne, labelWidth]
  · cases hl

end Sizes

namespace Drawing

variable {drawing : Drawing Rat} {x : PlacedEdge Rat × Connector × List Cell}

-- A drawing that is made from a solution of a graph with boxes, labels and gaps of these sizes.
structure OfSolution (g : SizedGraph Rat) (place : String → Nat) (s : Solution Rat) (dx dy : Rat)
    (drawing : Drawing Rat) : Prop where
  solved : Solved g place s
  drawn : Drawn g s dx dy drawing.placed
  rects : drawing.rects = g.nodes.map fun n => (n.id, ofBounds ((g.nodeBounds s n).shift dx dy))
  boxes : g.HasBoxes
  labels : ∀ e ∈ g.edges, ∀ label, e.label.filter (· ≠ "") = some label →
    e.labelWidth = Text.displayWidth label + 2 ∧ e.labelHeight = 1
  clearance : g.spacing.Clearance (forest [] g.groups) (3 / 2)

namespace OfSolution

variable (h : drawing.OfSolution g place s dx dy)
include h

theorem exists_edge (hx : x ∈ drawing.paths) : ∃ y ∈ g.realEdges,
    x.1.source = y.1.source ∧ x.1.target = y.1.target ∧ x.1.label = y.1.label ∧
    x.1.points = (SizedGraph.route (g.boxes (g.rawOf s)) (g.rawOf s) y.2 y.1).map (Point.shift dx dy) ∧
    x.1.labelAnchor = ((g.rawOf s).labelAnchors.lookup y.2).map (Point.shift dx dy) ∧
    x.2.2 = edgeCells (drawing.rects.lookup x.1.source) (drawing.rects.lookup x.1.target) x.1.points := by
  simp only [paths, List.mem_map] at hx
  obtain ⟨y, hy, rfl⟩ := hx
  obtain ⟨z, hz, hsource, htarget, hlabel, hpoints, hanchor⟩ := h.drawn.exists_edge (List.of_mem_zip hy).left
  exact ⟨z, hz, hsource, htarget, hlabel, hpoints, hanchor, rfl⟩

theorem map_paths (hl : drawing.plan.connectors.length = g.realEdges.length) :
    drawing.paths.map (·.1) = drawing.placed.edges := by
  have hedges : drawing.placed.edges.length = g.realEdges.length := by
    rw [h.drawn.edges, SizedGraph.placeEdges, List.length_map, List.length_map]
  simp only [paths, List.map_map]
  exact List.map_fst_zip (hedges.trans hl.symm).le

theorem lookup_rects (hn : n ∈ g.nodes) :
    drawing.rects.lookup n.id = some (ofBounds ((g.nodeBounds s n).shift dx dy)) := by
  rw [h.rects]
  refine lookup_of_mem ?_ (List.mem_map_of_mem hn)
  rw [List.map_map]
  exact h.solved.wellFormed.nodes_nodup

theorem writes_drawLabel (hrank : 1 ≤ g.spacing.rank) (hx : x ∈ drawing.paths) (hne : x.1.source ≠ x.1.target)
    (canvas : Canvas) :
    canvas.Writes (fun z => ∀ r ∈ drawing.rects, ¬r.2.contains z) (drawLabel canvas x.1) := by
  obtain ⟨y, hy, hsource, htarget, hlabel, _, hanchor, _⟩ := h.exists_edge hx
  unfold drawLabel
  split
  case h_2 => exact .refl canvas
  case h_1 label anchor hl ha =>
    refine (canvas.writes_drawText ..).mono fun z hz r hr => ?_
    rw [h.rects] at hr
    obtain ⟨n, hn, rfl⟩ := List.mem_map.mp hr
    obtain ⟨q, hq, rfl⟩ := Option.map_eq_some_iff.mp (hanchor.symm.trans ha)
    have he := SizedGraph.getElem?_of_mem_realEdges hy
    obtain ⟨hwidth, hheight⟩ := h.labels _ (List.mem_of_getElem? he) label (hlabel ▸ hl)
    have hor := h.solved.label_apart he (hsource ▸ htarget ▸ hne) hq hn
    rw [hwidth, hheight] at hor
    refine not_contains_of_inText ?_ hz
    simp only [Bounds.shift, Point.shift]
    refine hor.imp (fun _ => by linarith) fun hor => hor.imp (fun _ => by linarith) fun hor => ?_
    exact hor.imp (fun _ => by linarith) fun _ => by linarith

theorem outside (hrank : 1 ≤ g.spacing.rank) (hx : x ∈ drawing.paths) (hne : x.1.source ≠ x.1.target)
    (hbent : x.1.points.length = 2 ∨ 2 ≤ g.spacing.rank) (hs : (x.1.points.map cellAt).IsChain Cell.Straight) :
    Outside drawing.rects x.2.2 := by
  obtain ⟨y, hy, hsource, htarget, _, hpoints, _, hcells⟩ := h.exists_edge hx
  have he := SizedGraph.getElem?_of_mem_realEdges hy
  have hk : y.1.kind = .real := by simpa using (List.mem_filter.mp hy).right
  obtain ⟨upper, lower, c, hc⟩ := h.solved.exists_chainOf he hk (hsource ▸ htarget ▸ hne)
  obtain ⟨a, m, b, hr, hends⟩ := h.solved.exists_runsDown hc h.boxes.hasThickNodes
  have hd : Descends (g.nodes.map (g.nodeBounds s)) (g.nodeBounds s upper) (g.nodeBounds s lower) a m b := by
    refine hr.descends hc h.solved h.clearance h.boxes hrank (hbent.imp_left fun hlength => ?_) fun q hq => ?_
    · rcases hends with ⟨_, _, heq⟩ | ⟨_, _, heq⟩ <;> simpa [hpoints, heq] using hlength
    · rcases hends with ⟨_, _, heq⟩ | ⟨_, _, heq⟩
      · exact heq ▸ hq
      · exact heq ▸ hq.reverse
  have hd := hd.shift dx dy
  have hroute : (a :: m ++ [b]).map (Point.shift dx dy) =
      a.shift dx dy :: m.map (Point.shift dx dy) ++ [b.shift dx dy] := by simp
  have hrects : ∀ x ∈ drawing.rects, ∃ r ∈ (g.nodes.map (g.nodeBounds s)).map (Bounds.shift dx dy),
      x.2 = ofBounds r := by
    rw [h.rects, List.map_map]
    intro x hx
    obtain ⟨n, hn, rfl⟩ := List.mem_map.mp hx
    exact ⟨_, List.mem_map_of_mem hn, rfl⟩
  have hupper := h.lookup_rects hc.upper_mem
  have hlower := h.lookup_rects hc.lower_mem
  rw [hcells, hsource, htarget]
  rw [hpoints] at hs ⊢
  rcases hends with ⟨hu, hl, heq⟩ | ⟨hl, hu, heq⟩
  · rw [heq, hroute] at hs ⊢
    rw [← hu, ← hl, hupper, hlower, hd.edgeCells_down hs]
    exact .of_free hrects (by simp) (hd.free_cells hs)
  · rw [heq, List.map_reverse, hroute] at hs ⊢
    rw [List.map_reverse] at hs
    have hs := (List.isChain_reverse.mp hs).imp fun _ _ => Cell.Straight.symm
    rw [← hu, ← hl, hupper, hlower, hd.edgeCells_up hs]
    exact .of_free hrects (by simp) (List.isChain_reverse.mpr ((hd.free_cells hs).imp fun _ _ => Free.symm))

end OfSolution

section InCells

variable {charset : Charset} {paddingX paddingY sweeps : Nat} {d : Diagram}
variable (h : drawingOf (Config.inCells charset paddingX paddingY) sweeps d = .ok drawing)
include h

theorem ofSolution (hs : Solved (planOf (Config.inCells charset paddingX paddingY) d).graph place s)
    (hd : Drawn (planOf (Config.inCells charset paddingX paddingY) d).graph s dx dy drawing.placed) :
    drawing.OfSolution (planOf (Config.inCells charset paddingX paddingY) d).graph place s dx dy := by
  obtain ⟨hplan, hlayout⟩ := layout_of_drawingOf h
  refine ⟨hs, hd, ?rects, hasBoxes_planOf _ d, fun e he label hl => label_size he hl, ?clearance⟩
  case rects =>
    have hf := SizedGraph.layout_framed hlayout hs.measured
    have hn := nodes_planOf (Config.inCells charset paddingX paddingY) d
    rw [← hplan] at hf hn
    have hnodes := congrArg (List.map fun x => (x.1, ofBounds x.2)) hd.nodes
    rw [List.map_map, List.map_map] at hnodes
    exact (rects_eq hf hn).trans hnodes
  case clearance =>
    rw [spacing_planOf]
    constructor
    · norm_num [Config.spacing, Config.inCells, Config.standard]
    · intro
      simp only [Config.spacing, Config.inCells, Config.standard]
      have : (0 : Rat) ≤ paddingX := Nat.cast_nonneg _
      linarith

theorem exists_ofSolution : drawing.placed = { width := 0, height := 0 } ∨ ∃ place s dx dy,
    drawing.OfSolution (planOf (Config.inCells charset paddingX paddingY) d).graph place s dx dy := by
  obtain ⟨_, hlayout⟩ := layout_of_drawingOf h
  have hm := measured_planOf (Config.isMeasure_inCells charset paddingX paddingY) d
  refine (SizedGraph.exists_drawn_of_layout hlayout hm).imp (·.right) ?_
  rintro ⟨place, s, dx, dy, hs, hd⟩
  exact ⟨place, s, dx, dy, ofSolution h hs hd⟩

end InCells

end Drawing

-- Every edge is drawn, and no label between different boxes is written into a box. No connector of one segment takes a
-- cell of a box, and with a gap of two cells between ranks no other one does either, if rounding leaves its segments in
-- rows and columns.
theorem drawingOf_outside {f : Family} {text : String} {charset : Charset} {paddingX paddingY sweeps : Nat}
    {drawing : Drawing Rat} (hp : 1 ≤ paddingY)
    (h : drawingOf (Config.inCells charset paddingX paddingY) sweeps (Diagram.ofTextIn f text) = .ok drawing) :
    drawing.paths.map (·.1) = drawing.placed.edges ∧
    ∀ x ∈ drawing.paths, x.1.source ≠ x.1.target →
      (∀ canvas : Canvas,
        canvas.Writes (fun z => ∀ r ∈ drawing.rects, ¬r.2.contains z) (drawLabel canvas x.1)) ∧
      (x.1.points.length = 2 ∨ 2 ≤ paddingY → (x.1.points.map cellAt).IsChain Cell.Straight →
        Outside drawing.rects x.2.2) := by
  rcases Drawing.exists_ofSolution h with hnil | ⟨place, s, dx, dy, hsol⟩
  · simp [Drawing.paths, hnil]
  · have hrank : (planOf (Config.inCells charset paddingX paddingY) (Diagram.ofTextIn f text)).graph.spacing.rank =
        paddingY := by
      rw [spacing_planOf]
      rfl
    have hone := Nat.one_le_cast (α := Rat).mpr hp
    rw [← hrank] at hone
    refine ⟨?_, fun x hx hne => ⟨hsol.writes_drawLabel hone hx hne, fun hbent hs => hsol.outside hone hx hne ?_ hs⟩⟩
    · refine hsol.map_paths ?_
      rw [(Drawing.layout_of_drawingOf h).left, length_connectors_planOf]
    · rw [hrank]
      exact hbent.imp_right fun htwo => by exact_mod_cast htwo

theorem isChain_straight_of_x_eq {points : List (Point Rat)} {t : Rat} (h : ∀ p ∈ points, p.x = t) :
    (points.map cellAt).IsChain Cell.Straight := by
  rw [List.isChain_map, List.isChain_iff_forall_rel_of_append_cons_cons]
  intro a b l₁ l₂ he
  exact .inl (congrArg toCell ((h a (by simp [he])).trans (h b (by simp [he])).symm))

-- A person above a system.
def asks : String :=
  "C4Context
  Person(p, \"Reader\")
  System(s, \"Stock\")
  Rel(p, s, \"Asks\")"

namespace asks

def diagram : C4.Diagram where
  kind := "C4Context"
  elements := [{ kind := "Person", id := "p", label := "Reader" }, { kind := "System", id := "s", label := "Stock" }]
  relationships := [{ source := "p", target := "s", label := "Asks" }]

theorem ofTextIn_eq : Diagram.ofTextIn .c4 asks = .c4 diagram :=
  rfl

theorem not_repeatsBoundary : ¬(Diagram.ofTextIn .c4 asks).RepeatsBoundary := by
  rintro ⟨c, hc, _, hn⟩
  rw [ofTextIn_eq] at hc
  obtain rfl := Diagram.c4.inj hc
  exact hn (by decide)

abbrev graph : SizedGraph Rat :=
  (planOf (Config.inCells .unicode 5 3) (.c4 diagram)).graph

abbrev arrangement : Arrangement Rat :=
  (graph.solution 4).toArrangement

theorem realEdges_eq : graph.realEdges = [(labelledEdge "p" "s" (some "Asks"), 0)] :=
  rfl

theorem layers_eq : arrangement.layers = arrangement.stock.layers := by
  have hcrossings : Layers.crossings arrangement.stock.segments arrangement.stock.layers = 0 := by
    decide +kernel
  exact Layers.ofStock_of_crossings_eq_zero hcrossings (fun _ _ _ => rfl) 4

theorem straight : arrangement.Straight graph.spacing fun _ => 0 := by
  constructor
  case separated =>
    rw [layers_eq]
    decide +kernel
  case vertical => exact fun _ _ => rfl

-- Both boxes and the label are in one column.
theorem exists_path {drawing : Drawing Rat}
    (h : drawingOf (Config.inCells .unicode 5 3) 4 (Diagram.ofTextIn .c4 asks) = .ok drawing)
    (hp : drawing.paths.map (·.1) = drawing.placed.edges) :
    ∃ x ∈ drawing.paths, x.1.source ≠ x.1.target ∧ (x.1.points.map cellAt).IsChain Cell.Straight := by
  obtain ⟨_, hlayout⟩ := Drawing.layout_of_drawingOf h
  rw [ofTextIn_eq] at hlayout
  have hm := measured_planOf (Config.isMeasure_inCells .unicode 5 3) (.c4 diagram)
  obtain ⟨_, place, dx, dy, hs, hd⟩ := SizedGraph.exists_drawn_solution hlayout (by decide +kernel) hm
  have hsize {i : Item Rat} (hi : i ∈ arrangement.stock.items) : 0 ≤ i.width ∧ 0 ≤ i.extra := by
    obtain ⟨hwi, _, he⟩ := hs.spaced.items i hi
    exact ⟨hwi.nonneg, he.nonneg⟩
  have hupright : Abscissae.Upright arrangement.stock.segments (graph.solution 4).x :=
    hs.arranged.upright_ofLayers straight fun i hi j hj =>
      Spacing.separation_nonneg hs.spacing_nonneg (hsize hi) (hsize hj).left
  have hthick : graph.HasThickNodes := (hasBoxes_planOf _ _).hasThickNodes
  obtain ⟨d, hdrawn⟩ := hd.exists_drawn_edge (realEdges_eq ▸ List.mem_singleton_self _)
  have hdm := (List.of_mem_zip hdrawn).right
  obtain ⟨x, hx, rfl⟩ := List.mem_map.mp (hp ▸ hdm)
  obtain ⟨y, hy, hsource, htarget, _, hpoints, _⟩ := hd.exists_edge hdm
  obtain rfl := List.mem_singleton.mp (realEdges_eq ▸ hy)
  obtain ⟨upper, lower, c, hc⟩ := hs.exists_chainOf (SizedGraph.getElem?_of_mem_realEdges hy) rfl (by decide)
  refine ⟨x, hx, by rw [hsource, htarget]; decide, ?_⟩
  rw [hpoints]
  have hcolumn := fun q => hs.x_eq_of_mem_route (q := q) hc hthick hupright
  refine isChain_straight_of_x_eq (t := (graph.solution 4).x.value (.item (graph.itemOf upper).slot) + dx) ?_
  intro p hp
  obtain ⟨q, hq, rfl⟩ := List.mem_map.mp hp
  exact congrArg (· + dx) (hcolumn q hq)

end asks

theorem drawingOf_outside_asks : ∃ drawing,
    drawingOf (Config.inCells .unicode 5 3) 4 (Diagram.ofTextIn .c4 asks) = .ok drawing ∧
    ∃ x ∈ drawing.paths, x.1.source ≠ x.1.target ∧ (x.1.points.map cellAt).IsChain Cell.Straight ∧
      (∀ canvas : Canvas,
        canvas.Writes (fun z => ∀ r ∈ drawing.rects, ¬r.2.contains z) (drawLabel canvas x.1)) ∧
      Outside drawing.rects x.2.2 := by
  obtain ⟨drawing, h⟩ := exists_drawingOf asks.not_repeatsBoundary (Config.inCells .unicode 5 3) 4
  obtain ⟨hpaths, houtside⟩ := drawingOf_outside (by norm_num) h
  obtain ⟨x, hx, hne, hs⟩ := asks.exists_path h hpaths
  obtain ⟨hlabel, hcells⟩ := houtside x hx hne
  exact ⟨drawing, h, x, hx, hne, hs, hlabel, hcells (.inr (by norm_num)) hs⟩

end TextArt

end Drawings

end LayeredDiagram
