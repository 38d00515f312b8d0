import LayeredDiagram.Proofs.Connectors
/-!
Gaps of a single row between ranks. A sideways run in the middle of such a gap is half a row above the boxes below it,
and is rounded down into their topmost row.
-/

namespace LayeredDiagram

open LayeredDiagram.Group Route

variable {g : SizedGraph Rat} {place : String → Nat} {s : Solution Rat} {p : PlacedGraph Rat}
variable {upper lower n : SizedNode Rat} {c : Chain Rat} {e : SizedEdge Rat} {k : Nat} {dx dy : Rat}

-- Whatever all nodes and routes are below, the upper margin ends below as well, if nothing else is drawn.
theorem SizedGraph.le_margin_of_onCanvas {margin : Margin Rat} {nodes : List (PlacedNode Rat)}
    {edges : List (PlacedEdge Rat)} {y : Rat} (hp : p = onCanvas margin [] nodes edges []) (hne : p.nodes ≠ [])
    (hn : ∀ d ∈ p.nodes, y ≤ d.y) (he : ∀ d ∈ p.edges, ∀ q ∈ d.points, y ≤ q.y) : y ≤ margin.y := by
  subst hp
  have hne : nodes ≠ [] := by simpa [onCanvas] using hne
  have hempty : nodes.map (·.bounds) ++ (PlacedGroup.walkAll ([] : List (PlacedGroup Rat))).map (·.bounds) ++ [] ++
      (edges.flatMap fun e => e.points.map Bounds.ofPoint) ≠ [] := by simp [hne]
  obtain ⟨hull, hhull⟩ := Bounds.exists_hull? hempty
  have hin := (Bounds.within_iff_of_hull? hhull).mp (.refl hull)
  simp only [onCanvas, hhull, Option.getD_some] at hn he
  have hlow : hull.Within ⟨hull.left, y - (margin.y - hull.top), hull.right, hull.bottom⟩ := by
    refine (Bounds.within_iff_of_hull? hhull).mpr fun b hb => ?_
    obtain ⟨hl, _, hr, hbottom⟩ := hin b hb
    refine ⟨hl, ?_, hr, hbottom⟩
    simp only [PlacedGroup.walkAll, List.map_nil, List.append_nil, List.mem_append, List.mem_map,
      List.mem_flatMap] at hb
    rcases hb with ⟨d, hd, rfl⟩ | ⟨d, hd, q, hq, rfl⟩
    · have := hn _ (List.mem_map_of_mem hd)
      simp only [PlacedNode.shift] at this
      simp only [PlacedNode.bounds]
      linarith
    · have := he _ (List.mem_map_of_mem hd) _ (List.mem_map_of_mem hq)
      simp only [Point.shift] at this
      simp only [Bounds.ofPoint]
      linarith
  have := hlow.top
  simp only at this
  linarith

namespace RunsDown

variable {a b : Point Rat} {m : List (Point Rat)} (hr : RunsDown g s c upper lower a m b)
variable (h : ChainOf g s e k upper lower c) (hs : Stacked g place s) (hgap : 1 ≤ g.spacing.rank)
include hr h hs hgap

-- A route from the side has a last turn, and it is above the middle of the lower node.
theorem exists_turn (hside : 1 / 1000 ≤ |(s.center (g.itemOf upper)).x - (s.center (g.itemOf lower)).x|) :
    ∃ p ∈ m, |p.x - (s.center (g.itemOf lower)).x| ≤ 1 / 1000 := by
  have hum := hs.itemOf_mem h.upper_mem
  have hlm := hs.itemOf_mem h.lower_mem
  rcases List.eq_nil_or_concat m with rfl | ⟨l, p, rfl⟩
  · exfalso
    have hab : Aligned (1 / 100000000) a b := (List.isChain_cons_cons.mp hr.aligned).left
    rcases hab with hx | hy
    · obtain ⟨_, _⟩ := abs_le.mp hx
      obtain ⟨_, _⟩ := abs_le.mp hr.near_start
      obtain ⟨_, _⟩ := abs_le.mp hr.near_stop
      rcases le_abs.mp hside with hside | hside <;> linarith
    · have hrank := hs.bandBottom_add_rank_le hum hlm h.rank_lt
      have hbottom : (g.nodeBounds s upper).bottom ≤ _ := hs.room_le_bandBottom hum
      have htop : _ ≤ (g.nodeBounds s lower).top := hs.bandTop_le_room hlm
      rw [hr.start, hr.stop] at hy
      linarith [(abs_le.mp hy).left]
  · refine ⟨p, by simp, ?_⟩
    have hpb : Aligned (1 / 100000000) p b := List.isChain_iff_forall_rel_of_append_cons_cons.mp hr.aligned
      (show a :: l.concat p ++ [b] = (a :: l) ++ p :: b :: [] by simp)
    obtain ⟨seg, hpy, hu, hl, _, hrank, hlr⟩ := hr.exists_segment h hs (p := p) (by simp)
    have htop : _ ≤ (g.nodeBounds s lower).top := hs.arrival_le_room_top hu hl hrank hlm hlr
    rcases hpb with hx | hy
    · have hstop := hr.near_stop
      linarith [abs_sub_le p.x b.x (s.center (g.itemOf lower)).x]
    · rw [hr.stop] at hy
      linarith [(abs_le.mp hy).left]

omit hgap in
-- Between neighbouring ranks, all turns are in the middle of the gap.
theorem y_eq_of_mem (hnext : (g.itemOf lower).rank = (g.itemOf upper).rank + 1) {p : Point Rat} (hp : p ∈ m) :
    p.y = (s.bandBottom g.spacing (g.itemOf upper).rank + s.bandTop g.spacing (g.itemOf lower).rank) / 2 := by
  obtain ⟨seg, hpy, hu, hl, hur, hrank, hlr⟩ := hr.exists_segment h hs hp
  have hupper : seg.upper.rank = (g.itemOf upper).rank := by omega
  have hlower : seg.lower.rank = (g.itemOf lower).rank := by omega
  rw [hpy, hs.arrival_y hu hl hrank, hupper, hlower]

end RunsDown

namespace TextArt

open CellRect

section Bends

variable {r r' : Option CellRect} {a b : Point Rat} {m : List (Point Rat)}

theorem exists_leave_eq (r : Option CellRect) (z : Cell) (cells : List Cell) :
    ∃ z', leave r (z :: cells) = z' :: cells := by
  cases cells
  case nil => exact ⟨z, rfl⟩
  case cons w cells =>
    rw [leave]
    split
    case isTrue => exact ⟨_, rfl⟩
    case isFalse => exact ⟨_, rfl⟩

-- Only the two ends of a route are moved.
theorem map_cellAt_subset_edgeCells : m.map cellAt ⊆ edgeCells r r' (a :: m ++ [b]) := by
  intro z hz
  change z ∈ (leave r' (leave r ((a :: m ++ [b]).map cellAt)).reverse).reverse
  obtain ⟨first, hfirst⟩ := exists_leave_eq r (cellAt a) (m.map cellAt ++ [cellAt b])
  obtain ⟨last, hlast⟩ := exists_leave_eq r' (cellAt b) ((m.map cellAt).reverse ++ [first])
  have hcells : leave r ((a :: m ++ [b]).map cellAt) = first :: (m.map cellAt ++ [cellAt b]) := by
    simpa using hfirst
  have hback : leave r' (first :: (m.map cellAt ++ [cellAt b])).reverse =
      last :: ((m.map cellAt).reverse ++ [first]) := by simpa using hlast
  rw [hcells, hback]
  simp only [List.mem_reverse, List.mem_cons, List.mem_append]
  exact .inr (.inl hz)

-- A point half a row above a box in a whole row is rounded down to the box.
theorem contains_of_above {box : Bounds Rat} {p : Point Rat} {row : Int} (htop : box.top = row)
    (habove : p.y + 1 / 2 = box.top) (hheight : box.top + 2 ≤ box.bottom) (hleft : box.left + 1 ≤ p.x)
    (hright : p.x + 1 ≤ box.right) : (ofBounds box).contains (cellAt p) := by
  have hbt : toCell box.top = row := by
    have := toCell_add_intCast 0 row
    rwa [zero_add, toCell_zero, zero_add, ← htop] at this
  have hy : toCell p.y = row := by
    have hfloor : p.y + 0.5 = row := by
      rw [← htop, ← habove]
      norm_num
    rw [toCell]
    change ⌊p.y + 0.5⌋ = row
    rw [hfloor, Int.floor_intCast]
  have hbl : toCell box.left + (1 : Nat) ≤ toCell p.x := toCell_add_le (by simpa using hleft)
  have hbr : toCell p.x + (1 : Nat) ≤ toCell box.right := toCell_add_le (by simpa using hright)
  have hbb : toCell box.top + (2 : Nat) ≤ toCell box.bottom := toCell_add_le (by simpa using hheight)
  rw [contains_ofBounds_iff]
  simp only [cellAt]
  omega

end Bends

-- In a gap of one row above a box in a whole row, a connector from the side takes a cell of the box.
theorem Drawing.OfSolution.exists_contains {drawing : Drawing Rat} (h : drawing.OfSolution g place s dx dy)
    (rect rect' : Option CellRect) (hgap : 1 ≤ g.spacing.rank) (hc : ChainOf g s e k upper lower c)
    (hnext : (g.itemOf lower).rank = (g.itemOf upper).rank + 1)
    (htop : s.bandTop g.spacing (g.itemOf lower).rank = (g.nodeBounds s lower).top)
    (hrow : s.bandBottom g.spacing (g.itemOf upper).rank + 1 = (g.nodeBounds s lower).top)
    (hwhole : ∃ row : Int, (g.nodeBounds s lower).top + dy = row)
    (hside : 1 / 1000 ≤ |(s.center (g.itemOf upper)).x - (s.center (g.itemOf lower)).x|) :
    ∃ z ∈ edgeCells rect rect'
        ((SizedGraph.route (g.boxes (g.rawOf s)) (g.rawOf s) k e).map (Point.shift dx dy)),
      (ofBounds ((g.nodeBounds s lower).shift dx dy)).contains z := by
  obtain ⟨a, m, b, hr, hends⟩ := h.solved.exists_runsDown hc h.boxes.hasThickNodes
  obtain ⟨p, hp, hpx⟩ := hr.exists_turn hc h.solved.toStacked hgap hside
  have hpy := hr.y_eq_of_mem hc h.solved.toStacked hnext hp
  obtain ⟨row, hwhole⟩ := hwhole
  obtain ⟨hwidth, hheight⟩ := h.boxes lower hc.lower_mem
  obtain ⟨hleft, hright⟩ := abs_le.mp hpx
  refine ⟨cellAt (p.shift dx dy), ?mem, ?contains⟩
  case mem =>
    rcases hends with ⟨_, _, heq⟩ | ⟨_, _, heq⟩
    · have hroute : (a :: m ++ [b]).map (Point.shift dx dy) =
          a.shift dx dy :: m.map (Point.shift dx dy) ++ [b.shift dx dy] := by simp
      rw [heq, hroute]
      exact map_cellAt_subset_edgeCells (List.mem_map_of_mem (List.mem_map_of_mem hp))
    · have hroute : (a :: m ++ [b]).reverse.map (Point.shift dx dy) =
          b.shift dx dy :: (m.map (Point.shift dx dy)).reverse ++ [a.shift dx dy] := by simp
      rw [heq, hroute]
      exact map_cellAt_subset_edgeCells (List.mem_map_of_mem (List.mem_reverse.mpr (List.mem_map_of_mem hp)))
  case contains =>
    simp only [SizedGraph.nodeBounds, Bounds.ofBox, Box.around] at hwhole htop hrow
    refine contains_of_above hwhole ?_ ?_ ?_ ?_
    all_goals
      simp only [Bounds.shift, Point.shift, SizedGraph.nodeBounds, Bounds.ofBox, Box.around]
      linarith

-- One system above two others.
def forks : String :=
  "C4Context
  System(p, \"Reader\")
  System(s, \"S\")
  System(t, \"T\")
  Rel(p, s, \"\")
  Rel(p, t, \"\")"

namespace forks

def diagram : C4.Diagram where
  kind := "C4Context"
  elements := [{ kind := "System", id := "p", label := "Reader" }, { kind := "System", id := "s", label := "S" },
    { kind := "System", id := "t", label := "T" }]
  relationships := [{ source := "p", target := "s", label := "" }, { source := "p", target := "t", label := "" }]

set_option maxRecDepth 2000 in
theorem ofTextIn_eq : Diagram.ofTextIn .c4 forks = .c4 diagram :=
  rfl

theorem not_repeatsBoundary : ¬(Diagram.ofTextIn .c4 forks).RepeatsBoundary := by
  rintro ⟨c, hc, _, hn⟩
  rw [ofTextIn_eq] at hc
  obtain rfl := Diagram.c4.inj hc
  exact hn (by decide)

abbrev graph : SizedGraph Rat :=
  (planOf (Config.inCells .unicode 5 1) (.c4 diagram)).graph

abbrev solution : Solution Rat :=
  graph.solution 4

theorem realEdges_eq : graph.realEdges = [(labelledEdge "p" "s" none, 0), (labelledEdge "p" "t" none, 1)] :=
  rfl

theorem nodes_spec : ∀ n ∈ graph.nodes, n.height = 3 ∧
    ((n.id = "p" ∧ (graph.itemOf n).rank = 0) ∨ ((n.id = "s" ∨ n.id = "t") ∧ (graph.itemOf n).rank = 1)) := by
  decide +kernel

theorem layers_eq : solution.layers = solution.stock.layers := by
  have hcrossings : Layers.crossings solution.stock.segments solution.stock.layers = 0 := by
    decide +kernel
  exact Layers.ofStock_of_crossings_eq_zero hcrossings (fun _ _ _ => rfl) 4

-- Two bands of three rows, with one row between them.
theorem bands_spec : solution.bandBottom graph.spacing 0 = 3 ∧ solution.bandTop graph.spacing 1 = 4 ∧
    (RankBand.center? solution.bands 0).getD 0 = 3 / 2 ∧ (RankBand.center? solution.bands 1).getD 0 = 11 / 2 := by
  have hbands : solution.bands = RankBand.ofLayers graph.spacing solution.stock.span solution.layers := rfl
  simp only [Arrangement.bandBottom, Arrangement.bandTop, Arrangement.bands, hbands, layers_eq]
  decide +kernel

theorem top_eq (hn : n ∈ graph.nodes) :
    (n.id = "p" ∧ (graph.itemOf n).rank = 0 ∧ (graph.nodeBounds solution n).top = 0) ∨
      ((n.id = "s" ∨ n.id = "t") ∧ (graph.itemOf n).rank = 1 ∧ (graph.nodeBounds solution n).top = 4) := by
  obtain ⟨_, _, hupper, hlower⟩ := bands_spec
  obtain ⟨hheight, hrank⟩ := nodes_spec n hn
  refine hrank.imp (fun ⟨hid, hr⟩ => ⟨hid, hr, ?_⟩) fun ⟨hid, hr⟩ => ⟨hid, hr, ?_⟩
  · simp only [SizedGraph.nodeBounds, Bounds.ofBox, Box.around, Solution.center, hr, hheight, hupper]
    norm_num
  · simp only [SizedGraph.nodeBounds, Bounds.ofBox, Box.around, Solution.center, hr, hheight, hlower]
    norm_num

theorem hasThickNodes : graph.HasThickNodes :=
  (hasBoxes_planOf _ _).hasThickNodes

section Solved

variable (hs : Solved graph place solution)
include hs

-- Both edges come down from the upper node.
theorem exists_chainOf {y : SizedEdge Rat × Nat} (hy : y ∈ graph.realEdges) : ∃ upper lower c,
    ChainOf graph solution y.1 y.2 upper lower c ∧ upper.id = "p" ∧ lower.id = y.1.target ∧
      (graph.itemOf upper).rank = 0 ∧ (graph.itemOf lower).rank = 1 ∧ (graph.nodeBounds solution lower).top = 4 := by
  have hends : ∀ y ∈ graph.realEdges, y.1.kind = .real ∧ y.1.source = "p" ∧ y.1.source ≠ y.1.target := by
    rw [realEdges_eq]
    decide
  obtain ⟨hk, hsource, hne⟩ := hends y hy
  obtain ⟨upper, lower, c, hc⟩ := hs.exists_chainOf (SizedGraph.getElem?_of_mem_realEdges hy) hk hne
  have hlt := hc.rank_lt
  obtain ⟨hu, hur, _⟩ | ⟨_, hur, _⟩ := top_eq hc.upper_mem
  case inr =>
    obtain ⟨_, hlr, _⟩ | ⟨_, hlr, _⟩ := top_eq hc.lower_mem <;> omega
  case inl =>
    obtain ⟨hl, hlr, _⟩ | ⟨hl, hlr, htop⟩ := top_eq hc.lower_mem
    case inl => omega
    case inr =>
      refine ⟨upper, lower, c, hc, hu, ?_, hur, hlr, htop⟩
      rcases hc.ends with ⟨_, hl, _⟩ | ⟨hu', _⟩
      · exact hl
      · exact absurd (hsource.trans (hu.symm.trans hu')) hne

-- The drawing is moved down by the margin.
theorem dy_eq (hd : Drawn graph solution dx dy (graph.assemble (graph.rawOf solution))) : dy = 1 := by
  have hlabels : graph.labelBounds (graph.rawOf solution) = [] := by
    refine List.filterMap_eq_nil_iff.mpr fun y hy => ?_
    have hnone : ∀ y ∈ graph.realEdges, y.1.kind = .real ∧ y.1.hasLabel = false := by
      rw [realEdges_eq]
      decide
    obtain ⟨hk, hlabel⟩ := hnone y hy
    have hiff := hs.isSome_labelAnchors_iff (SizedGraph.getElem?_of_mem_realEdges hy) hk
    rw [hlabel] at hiff
    rw [Option.map_eq_none_iff, ← Option.not_isSome_iff_eq_none]
    exact fun h => Bool.false_ne_true (hiff.mp h)
  have hcanvas : graph.assemble (graph.rawOf solution) = SizedGraph.onCanvas ⟨1, 1⟩ []
      (graph.placeNodes (graph.rawOf solution)) (graph.placeEdges (graph.rawOf solution)) [] := by
    rw [SizedGraph.assemble, hlabels]
    rfl
  have hnode {d : PlacedNode Rat} (hdm : d ∈ (graph.assemble (graph.rawOf solution)).nodes) :
      ∃ n ∈ graph.nodes, d.id = n.id ∧ d.y = (graph.nodeBounds solution n).top + dy := by
    obtain ⟨n, hn, hid, hb⟩ := hd.exists_node hdm
    exact ⟨n, hn, hid, congrArg Bounds.top hb⟩
  obtain ⟨n, hn, hid⟩ : ∃ n ∈ graph.nodes, n.id = "p" := by decide +kernel
  obtain ⟨d, hdm, hdn, _⟩ := hd.exists_drawn_node hn
  refine le_antisymm ?above ?below
  case above =>
    refine SizedGraph.le_margin_of_onCanvas hcanvas (List.ne_nil_of_mem hdm) (fun d hdm => ?_) fun d hdm q hq => ?_
    · obtain ⟨n, hn, _, hy⟩ := hnode hdm
      rcases top_eq hn with ⟨_, _, htop⟩ | ⟨_, _, htop⟩ <;> linarith
    · obtain ⟨y, hy, _, _, _, hpoints, _⟩ := hd.exists_edge hdm
      obtain ⟨upper, lower, c, hc, hu, _⟩ := exists_chainOf hs hy
      rw [hpoints] at hq
      obtain ⟨q, hqm, rfl⟩ := List.mem_map.mp hq
      have hbetween := hs.between_of_mem_route hc (hasThickNodes.thick hc.upper_mem)
        (hasThickNodes.thick hc.lower_mem) hqm
      have hroom := hs.room_top_le_bottom (hs.itemOf_mem hc.upper_mem)
      have htop : (graph.nodeBounds solution upper).top = (solution.room (graph.itemOf upper)).top := rfl
      simp only [Point.shift]
      rcases top_eq hc.upper_mem with ⟨_, _, h⟩ | ⟨_, _, h⟩ <;> linarith [hbetween.left]
  case below =>
    obtain ⟨n', hn', hid', hy⟩ := hnode hdm
    rw [hcanvas] at hdm
    have hmargin : (1 : Rat) ≤ d.y := (SizedGraph.within_area_onCanvas hdm).top
    rcases top_eq hn' with ⟨_, _, htop⟩ | ⟨hother, _⟩
    · linarith
    · rw [← hid', hdn, hid] at hother
      simp at hother

-- The lower nodes are beside each other, so that one of them is beside the upper node.
theorem exists_side : ∃ y ∈ graph.realEdges, ∃ upper lower c, ChainOf graph solution y.1 y.2 upper lower c ∧
    (graph.itemOf upper).rank = 0 ∧ (graph.itemOf lower).rank = 1 ∧ (graph.nodeBounds solution lower).top = 4 ∧
    1 / 1000 ≤ |(solution.center (graph.itemOf upper)).x - (solution.center (graph.itemOf lower)).x| := by
  have hreal : (labelledEdge "p" "s" none, 0) ∈ graph.realEdges ∧ (labelledEdge "p" "t" none, 1) ∈ graph.realEdges := by
    rw [realEdges_eq]
    exact ⟨List.mem_cons_self, List.mem_cons_of_mem _ List.mem_cons_self⟩
  obtain ⟨p, left, c, hc, hp, hl, hpr, hlr, hlt⟩ := exists_chainOf hs hreal.left
  obtain ⟨p', right, c', hc', hp', hr, _, hrr, hrt⟩ := exists_chainOf hs hreal.right
  obtain rfl : p' = p :=
    List.inj_on_of_nodup_map hs.wellFormed.nodes_nodup hc'.upper_mem hc.upper_mem (hp'.trans hp.symm)
  have hne : left ≠ right := by
    rintro rfl
    exact absurd (hl.symm.trans hr) (by decide)
  have hlm := hs.itemOf_mem hc.lower_mem
  have hrm := hs.itemOf_mem hc'.lower_mem
  have hor := hs.spaced.rightEdge_le_leftEdge_or hs.arranged hlm hrm (hlr.trans hrr.symm) fun h =>
    hs.slot_itemOf_ne hc.lower_mem hc'.lower_mem hne (congrArg Item.slot h)
  obtain ⟨hlw, _⟩ := hasBoxes_planOf _ _ left hc.lower_mem
  obtain ⟨hrw, _⟩ := hasBoxes_planOf _ _ right hc'.lower_mem
  have hle := (hs.spaced.items _ hlm).right.right.nonneg
  have hre := (hs.spaced.items _ hrm).right.right.nonneg
  have hlx : (solution.center (graph.itemOf left)).x = solution.x.value (.item (graph.itemOf left).slot) := rfl
  have hrx : (solution.center (graph.itemOf right)).x = solution.x.value (.item (graph.itemOf right).slot) := rfl
  have hlw' : (graph.itemOf left).width = left.width := rfl
  have hrw' : (graph.itemOf right).width = right.width := rfl
  by_cases hside : 1 / 1000 ≤ |(solution.center (graph.itemOf p')).x - (solution.center (graph.itemOf left)).x|
  case pos => exact ⟨_, hreal.left, p', left, c, hc, hpr, hlr, hlt, hside⟩
  case neg =>
    refine ⟨_, hreal.right, p', right, c', hc', hpr, hrr, hrt, ?_⟩
    obtain ⟨hnl, hnr⟩ := abs_lt.mp (not_le.mp hside)
    simp only [Item.rightEdge, Item.leftEdge] at hor
    rw [le_abs]
    exact hor.symm.imp (fun _ => by linarith) fun _ => by linarith

end Solved

end forks

theorem drawingOf_outside_forks : ∃ drawing,
    drawingOf (Config.inCells .unicode 5 1) 4 (Diagram.ofTextIn .c4 forks) = .ok drawing ∧
    ∃ x ∈ drawing.paths, x.1.source ≠ x.1.target ∧ ∃ z ∈ x.2.2, ∃ r ∈ drawing.rects, r.2.contains z := by
  obtain ⟨drawing, h⟩ := exists_drawingOf forks.not_repeatsBoundary (Config.inCells .unicode 5 1) 4
  refine ⟨drawing, h, ?_⟩
  rw [forks.ofTextIn_eq] at h
  obtain ⟨hplan, hlayout⟩ := Drawing.layout_of_drawingOf h
  have hm := measured_planOf (Config.isMeasure_inCells .unicode 5 1) (.c4 forks.diagram)
  obtain ⟨hw, _, hplaced⟩ := SizedGraph.layout_eq hlayout (by decide +kernel)
  obtain ⟨place, hs⟩ := SizedGraph.exists_solved hw hm 4
  obtain ⟨dx, dy, hd⟩ := SizedGraph.exists_drawn hs.toStacked
  obtain rfl := forks.dy_eq hs hd
  rw [← hplaced] at hd
  have hsol := Drawing.ofSolution h hs hd
  have hpaths := hsol.map_paths (by rw [hplan, length_connectors_planOf])
  obtain ⟨y, hy, upper, lower, c, hc, hupper, hlower, htop, hside⟩ := forks.exists_side hs
  obtain ⟨d, hdrawn⟩ := hd.exists_drawn_edge hy
  obtain ⟨x, hx, rfl⟩ := List.mem_map.mp (hpaths ▸ (List.of_mem_zip hdrawn).right)
  have hpoints := (hd.points_eq hdrawn).right
  obtain ⟨hbottom, hband, _⟩ := forks.bands_spec
  obtain ⟨z, hz, hsource, htarget, _, _, _, hcells⟩ := hsol.exists_edge hx
  have hends : ∀ y ∈ forks.graph.realEdges, y.1.source ≠ y.1.target := by decide +kernel
  have hrect := hsol.lookup_rects hc.lower_mem
  have hone : 1 ≤ forks.graph.spacing.rank := by
    rw [spacing_planOf]
    norm_num [Config.spacing, Config.inCells]
  obtain ⟨cell, hcell, hcontains⟩ := hsol.exists_contains (drawing.rects.lookup x.1.source)
    (drawing.rects.lookup x.1.target) hone hc (by rw [hupper, hlower]) (by rw [hlower, hband, htop])
    (by rw [hupper, hbottom, htop]; norm_num) ⟨5, by rw [htop]; norm_num⟩ hside
  refine ⟨x, hx, hsource ▸ htarget ▸ hends z hz, cell, ?_, _, mem_of_lookup hrect, hcontains⟩
  rw [hcells, hpoints]
  exact hcell

end TextArt

end LayeredDiagram
