import LayeredDiagram.Proofs.Boxes
import LayeredDiagram.Proofs.Pictures
/-!
Labels of groups in cells. A label starts inside the frame of its group and is written to the right of it without regard
to what room there is. Nothing makes a group or the canvas as wide as a label, so that only the other contents of a
picture decide whether the label is complete.
-/

namespace LayeredDiagram

open LayeredDiagram.Group

variable {g : SizedGraph Rat} {place : String → Nat} {s : Solution Rat} {p : PlacedGraph Rat} {e : Entry}

section Canvas

variable {margin : Margin Rat} {labels : List (Bounds Rat)} {nodes : List (PlacedNode Rat)}
variable {edges : List (PlacedEdge Rat)} {groups : List (PlacedGroup Rat)}

-- A canvas is no wider than what it is put around.
theorem SizedGraph.width_onCanvas_le {left right : Rat} (hne : extents labels nodes edges groups ≠ [])
    (h : ∀ b ∈ extents labels nodes edges groups, left ≤ b.left ∧ b.right ≤ right) :
    (onCanvas margin labels nodes edges groups).width ≤ right - left + 2 * margin.x := by
  obtain ⟨hull, hhull⟩ := Bounds.exists_hull? hne
  have hin := (Bounds.within_iff_of_hull? hhull).mp (.refl hull)
  have hwithin : hull.Within ⟨left, hull.top, right, hull.bottom⟩ := by
    refine (Bounds.within_iff_of_hull? hhull).mpr fun b hb => ?_
    exact ⟨(h b hb).left, (hin b hb).top, (h b hb).right, (hin b hb).bottom⟩
  rw [extents] at hhull
  simp only [onCanvas, hhull, Option.getD_some, Bounds.width]
  have := hwithin.left
  have := hwithin.right
  linarith

end Canvas

namespace PlacedGroup

variable {d : PlacedGroup Rat} {ds : List (PlacedGroup Rat)} {dx dy : Rat}

-- Groups keep their labels.
mutual

theorem map_label_walk_ofGroup (all : List (String × Bounds Rat)) : (g : Group) → (above : List String) →
    (walk (ofGroup all g)).map (fun d => (d.id, d.label)) = (Group.entries above g).map fun e => (e.id, e.label)
  | ⟨id, _, _, children, _⟩, above => by
    simp only [ofGroup, walk, Group.entries, List.map_cons, map_label_walkAll_ofGroups all children (above ++ [id])]

theorem map_label_walkAll_ofGroups (all : List (String × Bounds Rat)) : (gs : List Group) → (above : List String) →
    (walkAll (ofGroups all gs)).map (fun d => (d.id, d.label)) = (Group.forest above gs).map fun e => (e.id, e.label)
  | [], above => by simp [ofGroups, walkAll, Group.forest]
  | g :: gs, above => by
    simp only [ofGroups, walkAll, Group.forest, List.map_append]
    rw [map_label_walk_ofGroup all g above, map_label_walkAll_ofGroups all gs above]

end

theorem label_shift (d : PlacedGroup Rat) : (d.shift dx dy).label = d.label := by
  cases d
  simp [shift]

end PlacedGroup

theorem Drawn.map_label_allGroups {dx dy : Rat} (h : Drawn g s dx dy p) (hu : g.uniformBands = false) :
    p.allGroups.map (fun d => (d.id, d.label)) = (forest [] g.groups).map fun e => (e.id, e.label) := by
  rw [PlacedGraph.allGroups, h.groups, SizedGraph.placeGroups_eq hu, PlacedGroup.walkAll_shiftAll, List.map_map]
  refine (List.map_congr_left fun d _ => ?_).trans (PlacedGroup.map_label_walkAll_ofGroups (g.groupTable s) g.groups [])
  exact Prod.ext (PlacedGroup.id_shift d) (PlacedGroup.label_shift d)

-- Nodes are placed where the items are that stand for them, and groups around what they hold.
theorem Solved.exists_node_of_mem_placeNodes (hs : Solved g place s) {b : Bounds Rat}
    (hb : b ∈ (g.placeNodes (g.rawOf s)).map (·.bounds)) : ∃ n ∈ g.nodes, b = s.itemBounds (g.itemOf n) := by
  have hmap := congrArg (List.map Prod.snd) (SizedGraph.map_placeNodes hs.toStacked)
  rw [List.map_map, List.map_map] at hmap
  obtain ⟨n, hn, rfl⟩ := List.mem_map.mp (show b ∈ g.nodes.map _ from hmap ▸ hb)
  exact ⟨n, hn, rfl⟩

theorem SizedGraph.exists_entry_of_mem_placeGroups (hu : g.uniformBands = false) {b : Bounds Rat}
    (hb : b ∈ (PlacedGroup.walkAll (g.placeGroups (g.rawOf s))).map (·.bounds)) :
    ∃ e ∈ forest [] g.groups, b = g.groupBounds s e := by
  have hmap := congrArg (List.map Prod.snd) (PlacedGroup.map_walkAll_ofGroups (g.groupTable s) g.groups [])
  rw [List.map_map, List.map_map] at hmap
  rw [placeGroups_eq hu] at hb
  obtain ⟨e, he, rfl⟩ := List.mem_map.mp (show b ∈ (forest [] g.groups).map _ from hmap ▸ hb)
  exact ⟨e, he, rfl⟩

-- Every group has room for its padding and its header.
theorem Solved.padding_le_groupBounds (hs : Solved g place s) (he : e ∈ forest [] g.groups) :
    (g.groupBounds s e).left + 2 * g.spacing.groupPadding ≤ (g.groupBounds s e).right ∧
      (g.groupBounds s e).top + (2 * g.spacing.groupPadding + g.spacing.groupHeader) ≤ (g.groupBounds s e).bottom := by
  have hpadding : 0 ≤ g.spacing.groupPadding := hs.nonneg (by simp [Spacing.lengths])
  have hheader : 0 ≤ g.spacing.groupHeader := hs.nonneg (by simp [Spacing.lengths])
  induction e, he using inner_induction
  case step e he ih =>
    obtain ⟨b, hb⟩ := List.exists_mem_of_ne_nil _ (hs.inside_ne_nil he)
    have hframes := Content.frames_around (c := g.content s) hb
    rw [show (g.content s).around (g.inside s e) = g.groupBounds s e from (hs.groupBounds_eq he).symm] at hframes
    obtain ⟨hl, ht, hr, hbottom⟩ := hframes
    simp only [SizedGraph.content] at hl ht hr hbottom
    have hsize : b.left ≤ b.right ∧ b.top ≤ b.bottom := by
      rcases hs.inside_cases he hb with ⟨i, hi, _, rfl⟩ | ⟨f, hf, hp, rfl⟩
      · have hwidth := (hs.spaced.items i hi).left.nonneg
        have hheight := hs.height_nonneg i hi
        simp only [Solution.itemBounds, Bounds.ofBox, Box.around]
        constructor <;> linarith
      · obtain ⟨hx, hy⟩ := ih f hf hp
        constructor <;> linarith
    constructor <;> linarith

-- Every drawn group stays inside the margins and has room for its padding and its header.
structure PlacedGroup.Roomy (g : SizedGraph Rat) (p : PlacedGraph Rat) (d : PlacedGroup Rat) : Prop where
  within : d.bounds.Within (p.area g.margin)
  wide : d.bounds.left + 2 * g.spacing.groupPadding ≤ d.bounds.right
  high : d.bounds.top + (2 * g.spacing.groupPadding + g.spacing.groupHeader) ≤ d.bounds.bottom

theorem SizedGraph.layout_roomy {sweeps : Nat} (h : g.layout sweeps = .ok p)
    (hm : Measured g.nodes g.edges g.spacing) : ∀ d ∈ p.allGroups, d.Roomy g p := by
  intro d hd
  by_cases hn : g.nodes = []
  case pos =>
    obtain rfl := layout_of_nil h hn
    simp [PlacedGraph.allGroups, PlacedGroup.walkAll] at hd
  case neg =>
    obtain ⟨rfl, place, dx, dy, hs, hdrawn⟩ := exists_drawn_solution h hn hm
    obtain ⟨e, he, _, hwithin⟩ := hdrawn.exists_entry hd
    obtain ⟨hx, hy⟩ := hs.padding_le_groupBounds he
    obtain ⟨hl, ht, hr, hb⟩ := hwithin
    simp only [Bounds.shift] at hl ht hr hb
    exact ⟨group_within_area_onCanvas hd, by linarith, by linarith⟩

namespace TextArt

open Canvas

variable {drawing : Drawing Rat} {c : Config Rat} {d : Diagram} {sweeps : Nat} {group : PlacedGroup Rat}
variable {label : String} {canvas : Canvas}

-- The cell where the label of a group starts.
def labelCell (group : PlacedGroup Rat) : Cell :=
  ⟨(CellRect.ofGroup group).x + 2, (CellRect.ofGroup group).y + 1⟩

-- All columns of a label are on a canvas.
def Complete (canvas : Canvas) (group : PlacedGroup Rat) (label : String) : Prop :=
  ∀ z, InText (labelCell group) (Text.displayWidth label) z → canvas.contains z

-- What can be said of the label of a group: it starts on the canvas and is complete if it ends there, for which a box
-- inside the group or its frame may be wide enough. A complete label is written as it is.
structure Drawing.Labelled (drawing : Drawing Rat) (canvas : Canvas) (group : PlacedGroup Rat) (label : String) :
    Prop where
  starts : canvas.contains (labelCell group)
  complete_iff : Complete canvas group label ↔ (labelCell group).x + Text.displayWidth label ≤ canvas.width
  of_frame : Text.displayWidth label ≤ (CellRect.ofGroup group).width → Complete canvas group label
  of_box : ∀ x ∈ drawing.rects, group.id ∈ ownerPath (forest [] drawing.plan.graph.groups) x.1 →
    Text.displayWidth label ≤ x.2.width + 4 → Complete canvas group label
  reads : Complete canvas group label → ∀ (before : Canvas) dashed, before.size = canvas.size →
    (drawGroup dashed before group).read (labelCell group).y (labelCell group).x
      ((labelCell group).x + Text.displayWidth label) = label

theorem complete_iff (hstart : canvas.contains (labelCell group)) (label : String) :
    Complete canvas group label ↔ (labelCell group).x + Text.displayWidth label ≤ canvas.width := by
  obtain ⟨hx, hwidth, hy, hheight⟩ := (canvas.contains_iff _).mp hstart
  constructor
  case mp =>
    intro h
    by_cases hzero : Text.displayWidth label = 0
    case pos => omega
    case neg =>
      have hlast := h ⟨(labelCell group).x + Text.displayWidth label - 1, (labelCell group).y⟩
        ⟨rfl, by simp only; omega, by simp only; omega⟩
      rw [contains_iff] at hlast
      simp only at hlast
      omega
  case mpr =>
    rintro h z ⟨hrow, hleft, hright⟩
    rw [contains_iff]
    omega

-- A complete label is on the canvas after its group has been drawn.
theorem read_drawGroup (hlabel : group.label.filter (· ≠ "") = some label) (h : Complete canvas group label)
    {before : Canvas} (hsize : before.size = canvas.size) (dashed : Bool) :
    (drawGroup dashed before group).read (labelCell group).y (labelCell group).x
      ((labelCell group).x + Text.displayWidth label) = label := by
  have hdraw : drawGroup dashed before group =
      (before.drawFrame (CellRect.ofGroup group).corner (CellRect.ofGroup group).width
        (CellRect.ofGroup group).height dashed).drawText (labelCell group) label "group_label" := by
    simp only [drawGroup, hlabel]
    rfl
  rw [hdraw]
  refine read_drawText fun z hz => ?_
  rw [Command.drawFrame_eq, contains_of_size (Stroke.size_draw.trans hsize)]
  exact h z hz

section Cells

variable {charset : Charset} {paddingX paddingY : Nat}
variable (h : drawingOf (Config.inCells charset paddingX paddingY) sweeps d = .ok drawing)
variable (hgroup : group ∈ drawing.placed.allGroups)
include h hgroup

-- A frame has room for padding and header and stays inside the margins, also in cells.
theorem Drawing.group_onCanvas (recording : Bool) :
    (0 < (CellRect.ofGroup group).x ∧ 4 ≤ (CellRect.ofGroup group).width ∧
      (CellRect.ofGroup group).x + (CellRect.ofGroup group).width + 2 ≤ (drawing.start charset recording).width) ∧
    (0 < (CellRect.ofGroup group).y ∧ 5 ≤ (CellRect.ofGroup group).height ∧
      (CellRect.ofGroup group).y + (CellRect.ofGroup group).height + 2 ≤ (drawing.start charset recording).height) := by
  obtain ⟨-, hlayout⟩ := layout_of_drawingOf h
  have hm := measured_planOf (Config.isMeasure_inCells charset paddingX paddingY) d
  obtain ⟨⟨hl, ht, hr, hb⟩, hwide, hhigh⟩ := SizedGraph.layout_roomy hlayout hm group hgroup
  have hmargin : (planOf (Config.inCells charset paddingX paddingY) d).graph.margin = ⟨1, 1⟩ := margin_planOf _ d
  have hspacing := spacing_planOf (Config.inCells charset paddingX paddingY) d
  have hpad : (planOf (Config.inCells charset paddingX paddingY) d).graph.spacing.groupPadding = 2 :=
    congrArg Spacing.groupPadding hspacing
  have hheader : (planOf (Config.inCells charset paddingX paddingY) d).graph.spacing.groupHeader = 1 :=
    congrArg Spacing.groupHeader hspacing
  rw [hmargin] at hl ht hr hb
  rw [hpad] at hwide
  rw [hpad, hheader] at hhigh
  simp only [PlacedGraph.area] at hl ht hr hb
  have hleft : toCell (0 : Rat) + 1 ≤ toCell group.bounds.left := toCell_add_le (by push_cast; linarith)
  have htop : toCell (0 : Rat) + 1 ≤ toCell group.bounds.top := toCell_add_le (by push_cast; linarith)
  have hright : toCell group.bounds.right + 1 ≤ toCell drawing.placed.width :=
    toCell_add_le (by push_cast; linarith)
  have hbottom : toCell group.bounds.bottom + 1 ≤ toCell drawing.placed.height :=
    toCell_add_le (by push_cast; linarith)
  have hwidth : toCell group.bounds.left + 4 ≤ toCell group.bounds.right := toCell_add_le (by push_cast; linarith)
  have hheight : toCell group.bounds.top + 5 ≤ toCell group.bounds.bottom := toCell_add_le (by push_cast; linarith)
  rw [toCell_zero] at hleft htop
  simp only [CellRect.ofGroup_eq, CellRect.ofBounds, start, blank]
  omega

-- Around a box inside a group is the padding of the group.
theorem Drawing.width_add_four_le : ∀ x ∈ drawing.rects,
    group.id ∈ ownerPath (forest [] drawing.plan.graph.groups) x.1 → x.2.width + 4 ≤ (CellRect.ofGroup group).width := by
  intro x hx hin
  obtain ⟨hplan, hlayout⟩ := layout_of_drawingOf h
  have hm := measured_planOf (Config.isMeasure_inCells charset paddingX paddingY) d
  have hframed := SizedGraph.layout_framed hlayout hm
  have hpad : (planOf (Config.inCells charset paddingX paddingY) d).graph.spacing.groupPadding = 2 :=
    congrArg Spacing.groupPadding (spacing_planOf (Config.inCells charset paddingX paddingY) d)
  have hn : drawing.plan.graph.nodes = drawing.plan.figures.map Figure.node := by rw [hplan, nodes_planOf]
  rw [rects_eq (hplan ▸ hframed) hn] at hx
  obtain ⟨n, hnode, rfl⟩ := List.mem_map.mp hx
  rw [hplan] at hin
  obtain ⟨hl, -, hr, -⟩ := hframed.frames n hnode group hgroup hin
  rw [hpad] at hl hr
  have hleft : toCell group.bounds.left + 2 ≤ toCell n.bounds.left := toCell_add_le (by push_cast; linarith)
  have hright : toCell n.bounds.right + 2 ≤ toCell group.bounds.right := toCell_add_le (by push_cast; linarith)
  simp only [CellRect.ofGroup_eq, CellRect.ofBounds]
  omega

theorem Drawing.labelled_of_drawingOf (hlabel : group.label.filter (· ≠ "") = some label) (recording : Bool) :
    drawing.Labelled (drawing.start charset recording) group label := by
  obtain ⟨hx, hy⟩ := group_onCanvas h hgroup recording
  have hstart : (drawing.start charset recording).contains (labelCell group) := by
    rw [contains_iff, labelCell]
    simp only
    omega
  have hframe (hle : Text.displayWidth label ≤ (CellRect.ofGroup group).width) :
      Complete (drawing.start charset recording) group label := by
    rw [complete_iff hstart, labelCell]
    simp only
    omega
  constructor
  case starts => exact hstart
  case complete_iff => exact complete_iff hstart label
  case of_frame => exact hframe
  case of_box => exact fun x hx hin hle => hframe (hle.trans (width_add_four_le h hgroup x hx hin))
  case reads => exact fun hcomplete before dashed hsize => read_drawGroup hlabel hcomplete hsize dashed

end Cells

-- Every label of a group starts inside its frame on the canvas. It is complete exactly if it ends on the canvas.
theorem drawingOf_labels (f : Family) (text : String) (charset : Charset) (paddingX paddingY sweeps : Nat)
    (recording : Bool) : ∀ drawing,
    drawingOf (Config.inCells charset paddingX paddingY) sweeps (Diagram.ofTextIn f text) = .ok drawing →
      ∀ group ∈ drawing.placed.allGroups, ∀ label, group.label.filter (· ≠ "") = some label →
        drawing.Labelled (drawing.start charset recording) group label :=
  fun _ h _ hgroup _ hlabel => Drawing.labelled_of_drawingOf h hgroup hlabel recording

-- A boundary with a long label around a small system.
def wideHeader : String :=
  "C4Context
  Boundary(b, \"Ordering and delivery\") \x7b
    System(s, \"S\")
  \x7d"

namespace wideHeader

def diagram : C4.Diagram where
  kind := "C4Context"
  elements := [{ kind := "System", id := "s", label := "S", parent := some "b" }]
  boundaries := [{ id := "b", label := "Ordering and delivery", kind := "Boundary", elements :=
    [{ kind := "System", id := "s", label := "S", parent := some "b" }] }]

theorem ofTextIn_eq : Diagram.ofTextIn .c4 wideHeader = .c4 diagram :=
  rfl

theorem not_repeatsBoundary : ¬(Diagram.ofTextIn .c4 wideHeader).RepeatsBoundary := by
  rintro ⟨c, hc, _, hn⟩
  rw [ofTextIn_eq] at hc
  obtain rfl := Diagram.c4.inj hc
  exact hn (by decide)

abbrev graph : SizedGraph Rat :=
  (planOf (Config.inCells .unicode 5 3) (.c4 diagram)).graph

theorem graph_spec : graph.nodes.length = 1 ∧ graph.realEdges = [] ∧ graph.uniformBands = false := by
  decide

theorem forest_spec : (forest [] graph.groups).map (fun e => (e.id, e.label, e.path)) =
    [("b", some "Ordering and delivery", ["b"])] := by
  decide

theorem items_spec : (Stock.ofNodes graph.nodes graph.edges graph.spacing (forest [] graph.groups)).items.map
    (fun i => (i.width, i.path)) = [(5, ["b"])] := by
  decide +kernel

section Solved

variable (hs : Solved graph place s)
include hs

-- The only item is five columns wide, and the only group is put around it.
theorem exists_item : ∃ i, i.width = 5 ∧ (∀ j ∈ s.stock.items, j = i) ∧ ∀ e ∈ forest [] graph.groups,
    (s.itemBounds i).left - 2 ≤ (graph.groupBounds s e).left ∧
      (graph.groupBounds s e).right ≤ (s.itemBounds i).right + 2 := by
  obtain ⟨i, hitems, hi⟩ := List.map_eq_singleton_iff.mp items_spec
  rw [← hs.stock_eq] at hitems
  have hone : ∀ j ∈ s.stock.items, j = i := by simp [hitems]
  refine ⟨i, (Prod.mk.inj hi).left, hone, fun e he => ?_⟩
  have hpath {e : Entry} (he : e ∈ forest [] graph.groups) : e.path = ["b"] := by
    have hmem := List.mem_map_of_mem (f := fun e => (e.id, e.label, e.path)) he
    rw [forest_spec, List.mem_singleton] at hmem
    simp only [Prod.mk.injEq] at hmem
    exact hmem.right.right
  rw [hs.groupBounds_eq he]
  refine Content.around_beside (c := graph.content s) (hs.inside_ne_nil he) fun b hb => ?_
  have hpad : (graph.content s).spacing.groupPadding = 2 := rfl
  rw [hpad]
  rcases hs.inside_cases he hb with ⟨j, hj, _, rfl⟩ | ⟨f, hf, hp, _⟩
  · rw [hone j hj]
    constructor <;> linarith
  · rw [hpath hf, hpath he] at hp
    simp at hp

-- The label adds nothing to the width of the canvas.
theorem width_le : (graph.assemble (graph.rawOf s)).width ≤ 11 := by
  obtain ⟨i, hwidth, hone, hgroup⟩ := exists_item hs
  obtain ⟨hnodes, hedges, huniform⟩ := graph_spec
  have hsize : (s.itemBounds i).right = (s.itemBounds i).left + 5 := by
    simp only [Solution.itemBounds, Bounds.ofBox, Box.around, hwidth]
    ring
  have hnone : graph.labelBounds (graph.rawOf s) = [] ∧ graph.placeEdges (graph.rawOf s) = [] := by
    simp only [SizedGraph.labelBounds, SizedGraph.placeEdges, hedges]
    exact ⟨rfl, rfl⟩
  have hcanvas : (SizedGraph.onCanvas ⟨1, 1⟩ [] (graph.placeNodes (graph.rawOf s)) []
      (graph.placeGroups (graph.rawOf s))).width ≤ (s.itemBounds i).right + 2 - ((s.itemBounds i).left - 2) + 2 * 1 := by
    refine SizedGraph.width_onCanvas_le ?_ fun b hb => ?_
    · have hlength := congrArg List.length (SizedGraph.map_placeNodes hs.toStacked)
      rw [List.length_map, List.length_map, hnodes] at hlength
      have hsome : graph.placeNodes (graph.rawOf s) ≠ [] := List.ne_nil_of_length_pos (by omega)
      simp [SizedGraph.extents, hsome]
    · simp only [SizedGraph.extents, List.append_nil, List.flatMap_nil, List.mem_append] at hb
      rcases hb with hb | hb
      · obtain ⟨n, hn, rfl⟩ := hs.exists_node_of_mem_placeNodes hb
        rw [hone _ (hs.itemOf_mem hn)]
        constructor <;> linarith
      · obtain ⟨e, he, rfl⟩ := SizedGraph.exists_entry_of_mem_placeGroups huniform hb
        exact hgroup e he
  rw [SizedGraph.assemble, hnone.left, hnone.right]
  refine hcanvas.trans ?_
  linarith

end Solved

theorem exists_group : ∃ drawing,
    drawingOf (Config.inCells .unicode 5 3) 4 (Diagram.ofTextIn .c4 wideHeader) = .ok drawing ∧
    drawing.placed.width ≤ 11 ∧ ∃ group ∈ drawing.placed.allGroups,
      group.label.filter (· ≠ "") = some "Ordering and delivery" := by
  obtain ⟨drawing, h⟩ := exists_drawingOf not_repeatsBoundary (Config.inCells .unicode 5 3) 4
  refine ⟨drawing, h, ?_⟩
  rw [ofTextIn_eq] at h
  obtain ⟨hplan, hlayout⟩ := Drawing.layout_of_drawingOf h
  have hm := measured_planOf (Config.isMeasure_inCells .unicode 5 3) (.c4 diagram)
  obtain ⟨hplaced, place, dx, dy, hs, hd⟩ := SizedGraph.exists_drawn_solution hlayout (by decide +kernel) hm
  have hmem : ("b", some "Ordering and delivery") ∈ drawing.placed.allGroups.map fun d => (d.id, d.label) := by
    rw [hd.map_label_allGroups graph_spec.right.right]
    decide
  obtain ⟨group, hgroup, heq⟩ := List.mem_map.mp hmem
  refine ⟨hplaced ▸ width_le hs, group, hgroup, ?_⟩
  rw [(Prod.mk.inj heq).right]
  decide

end wideHeader

theorem drawingOf_labels_wideHeader : ∃ drawing,
    drawingOf (Config.inCells .unicode 5 3) 4 (Diagram.ofTextIn .c4 wideHeader) = .ok drawing ∧
    ∃ group ∈ drawing.placed.allGroups, group.label.filter (· ≠ "") = some "Ordering and delivery" ∧
      drawing.Labelled (drawing.start .unicode false) group "Ordering and delivery" := by
  obtain ⟨drawing, h, _, group, hgroup, hlabel⟩ := wideHeader.exists_group
  exact ⟨drawing, h, group, hgroup, hlabel,
    drawingOf_labels .c4 wideHeader .unicode 5 3 4 false drawing h group hgroup _ hlabel⟩

-- Twenty-one columns of a label do not fit on a canvas of twelve.
theorem not_complete_wideHeader : ∃ drawing,
    drawingOf (Config.inCells .unicode 5 3) 4 (Diagram.ofTextIn .c4 wideHeader) = .ok drawing ∧
    ∃ group ∈ drawing.placed.allGroups, group.label.filter (· ≠ "") = some "Ordering and delivery" ∧
      ¬Complete (drawing.start .unicode false) group "Ordering and delivery" := by
  obtain ⟨drawing, h, hwidth, group, hgroup, hlabel⟩ := wideHeader.exists_group
  refine ⟨drawing, h, group, hgroup, hlabel, fun hcomplete => ?_⟩
  have hlabelled := Drawing.labelled_of_drawingOf h hgroup hlabel false
  have hends := hlabelled.complete_iff.mp hcomplete
  have hstart := ((Canvas.contains_iff _ _).mp hlabelled.starts).left
  have hcolumns : Text.displayWidth "Ordering and delivery" = 21 := by decide
  have hcanvas : (drawing.start .unicode false).width ≤ 12 := by
    have hle : toCell drawing.placed.width ≤ toCell (11 : Rat) := toCell_mono hwidth
    have heleven : toCell (11 : Rat) = 11 := by decide +kernel
    simp only [Drawing.start, Canvas.blank]
    omega
  omega

end TextArt

end LayeredDiagram
