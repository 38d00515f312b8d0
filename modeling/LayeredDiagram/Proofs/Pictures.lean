import LayeredDiagram.Proofs.Cells
import LayeredDiagram.Proofs.Framing
import LayeredDiagram.Proofs.Refusals
/-!
Text art of texts. A text that has a layout in pixels has one in cells too, and whatever the gaps between its boxes,
the boxes take cells of their own on the canvas and keep off the frames of the groups around them.
-/

namespace LayeredDiagram

open LayeredDiagram.Group

namespace TextArt

section Shape

variable {α : Type} [Scalar α]

-- In cells and in pixels the same is laid out, in other sizes.
theorem map_id_nodes_planOf (c : Config α) (config : LayeredDiagram.Config α) (d : Diagram) :
    (planOf c d).graph.nodes.map (·.id) = (d.toGraph config).nodes.map (·.id) := by
  cases d <;>
    simp only [planOf, ofC4, ofArchiMate, ofClassDiagram, graphOf, Diagram.toGraph, C4.Diagram.toGraph,
      ArchiMate.Diagram.toGraph, ClassDiagram.Diagram.toGraph, List.map_map] <;> rfl

theorem map_ends_planOf (c : Config α) (config : LayeredDiagram.Config α) (d : Diagram) :
    (planOf c d).graph.edges.map SizedEdge.ends = (d.toGraph config).edges.map SizedEdge.ends := by
  cases d
  case c4 d =>
    simp only [planOf, ofC4, graphOf, Diagram.toGraph, C4.Diagram.toGraph, List.map_flatMap]
    rfl
  case archimate d =>
    simp only [planOf, ofArchiMate, graphOf, Diagram.toGraph, ArchiMate.Diagram.toGraph,
      ArchiMate.Diagram.orderingEdges, List.map_append, List.map_flatMap, List.map_map]
    rfl
  case classDiagram d =>
    simp only [planOf, ofClassDiagram, graphOf, Diagram.toGraph, ClassDiagram.Diagram.toGraph, List.map_map]
    rfl

theorem groups_planOf (c : Config α) (config : LayeredDiagram.Config α) (d : Diagram) :
    (planOf c d).graph.groups = (d.toGraph config).groups := by
  cases d <;> rfl

theorem direction_planOf (c : Config α) (d : Diagram) : (planOf c d).graph.direction = "TB" := by
  cases d <;> rfl

theorem exists_drawingOf {f : Family} {text : String} (hr : ¬(Diagram.ofTextIn f text).RepeatsBoundary)
    (c : Config α) (sweeps : Nat) : ∃ drawing, drawingOf c sweeps (Diagram.ofTextIn f text) = .ok drawing := by
  have hids := map_id_nodes_planOf c LayeredDiagram.Config.standard (Diagram.ofTextIn f text)
  have hends := map_ends_planOf c LayeredDiagram.Config.standard (Diagram.ofTextIn f text)
  have hgroups := groups_planOf c LayeredDiagram.Config.standard (Diagram.ofTextIn f text)
  obtain ⟨p, hp⟩ : ∃ p, (planOf c (Diagram.ofTextIn f text)).graph.layout sweeps = .ok p := by
    refine SizedGraph.exists_layout_of_nodes (direction_planOf ..) (fun hn => ?_) sweeps
    have hnodes : ((Diagram.ofTextIn f text).toGraph (LayeredDiagram.Config.standard : LayeredDiagram.Config α)).nodes
        ≠ [] := fun hnil => hn (by simpa [hnil] using hids)
    exact hgroups ▸ (Diagram.wellFormed_of_text LayeredDiagram.Config.standard hr hnodes).congr hids hends
  exact ⟨_, by rw [drawingOf, hp]; rfl⟩

end Shape

section Sizes

variable {c : Config Rat} {d : Diagram}

theorem Figure.width_nonneg (f : Figure) : 0 ≤ f.width := by
  simp only [width, Sections.boxWidth, textPadding]
  omega

theorem Figure.height_nonneg (f : Figure) : 0 ≤ f.height := by
  simp only [height]
  split <;> omega

theorem nodes_planOf (c : Config Rat) (d : Diagram) :
    (planOf c d).graph.nodes = (planOf c d).figures.map Figure.node := by
  cases d <;> rfl

theorem spacing_planOf (c : Config Rat) (d : Diagram) : (planOf c d).graph.spacing = c.spacing := by
  cases d <;> rfl

theorem margin_planOf (c : Config Rat) (d : Diagram) : (planOf c d).graph.margin = c.canvasMargin := by
  cases d <;> rfl

theorem isMeasure_labelWidth (label : String) : IsMeasure (labelWidth label : Rat) :=
  .natCast _

-- All drawn edges keep room for a row with their label.
theorem mem_edges_planOf {e : SizedEdge Rat} (he : e ∈ (planOf c d).graph.edges) :
    (∃ source target label, e = labelledEdge source target label) ∨
      ∃ source target weight, e = .ordering source target weight := by
  cases d
  case c4 d =>
    obtain ⟨r, _, he⟩ := List.mem_flatMap.mp he
    rcases C4.Relationship.eq_of_mem_edges he with rfl | rfl | rfl
    · refine .inl ⟨r.source, r.target, C4.shown? (some r.displayLabel), ?_⟩
      by_cases hl : r.displayLabel = ""
      case pos => simp [C4.Relationship.edge, labelledEdge, SizedEdge.labelled, C4.shown?, hl]
      case neg =>
        have hshown : C4.shown? (some r.displayLabel) = some r.displayLabel := by simp [C4.shown?, Option.filter, hl]
        rw [C4.Relationship.edge, labelledEdge, hshown, Option.getD_some]
    · exact .inr ⟨_, _, _, rfl⟩
    · exact .inr ⟨_, _, _, rfl⟩
  case archimate d =>
    rcases List.mem_append.mp he with he | he
    · obtain ⟨_, _, _, _, _, _, _, rfl⟩ := ArchiMate.Diagram.mem_orderingEdges_iff.mp he
      exact .inr ⟨_, _, _, rfl⟩
    · obtain ⟨r, _, rfl⟩ := List.mem_map.mp he
      exact .inl ⟨_, _, _, rfl⟩
  case classDiagram d =>
    obtain ⟨r, _, rfl⟩ := List.mem_map.mp he
    exact .inl ⟨_, _, _, rfl⟩

theorem isMeasure_edge {e : SizedEdge Rat} (he : e ∈ (planOf c d).graph.edges) :
    IsMeasure e.labelWidth ∧ IsMeasure e.labelHeight := by
  rcases mem_edges_planOf he with ⟨_, _, _, rfl⟩ | ⟨_, _, _, rfl⟩
  · exact SizedEdge.isMeasure_labelled (isMeasure_labelWidth _) .one
  · exact SizedEdge.isMeasure_ordering

theorem measured_planOf (hs : ∀ q ∈ c.spacing.lengths, IsMeasure q) (d : Diagram) :
    Measured (planOf c d).graph.nodes (planOf c d).graph.edges (planOf c d).graph.spacing where
  nodes n hn := by
    obtain ⟨f, _, rfl⟩ := List.mem_map.mp (nodes_planOf c d ▸ hn)
    exact ⟨.intCast f.width_nonneg, .intCast f.height_nonneg⟩
  edges _ he := isMeasure_edge he
  spacing := spacing_planOf c d ▸ hs

end Sizes

-- The usual sizes, with gaps of any number of cells between boxes and between ranks.
def Config.inCells (charset : Charset) (paddingX paddingY : Nat) : Config Rat :=
  { Config.standard with charset, paddingX := (paddingX : Rat), paddingY := (paddingY : Rat) }

theorem Config.isMeasure_inCells (charset : Charset) (paddingX paddingY : Nat) :
    ∀ q ∈ (inCells charset paddingX paddingY).spacing.lengths, IsMeasure q := by
  simp [Spacing.lengths, spacing, inCells, standard, IsMeasure.ofNat, IsMeasure.natCast, IsMeasure.one]

namespace Drawing

-- Boxes with room for their content on cells of their own, on the canvas, and strictly inside the frames of the groups
-- around them. A box belongs to the first group that lists it, and so to the groups around that one.
structure Tidy (drawing : Drawing Rat) : Prop where
  boxes : drawing.rects.map (fun x => (x.1, x.2.width, x.2.height)) =
    drawing.plan.figures.map fun f => (f.id, f.width, f.height)
  groups : drawing.plan.figures ≠ [] →
    drawing.placed.allGroups.map (·.id) = (forest [] drawing.plan.graph.groups).map (·.id)
  apart : drawing.rects.Pairwise fun x y => ∀ p, ¬(x.2.contains p ∧ y.2.contains p)
  onCanvas : ∀ x ∈ drawing.rects, ∀ p, x.2.contains p → ∀ charset recording,
    (drawing.start charset recording).contains p
  inFrames : ∀ x ∈ drawing.rects, ∀ g ∈ drawing.placed.allGroups,
    g.id ∈ ownerPath (forest [] drawing.plan.graph.groups) x.1 → (CellRect.ofGroup g).Encloses x.2

variable {drawing : Drawing Rat} {c : Config Rat} {d : Diagram} {sweeps : Nat}

theorem layout_of_drawingOf (h : drawingOf c sweeps d = .ok drawing) :
    drawing.plan = planOf c d ∧ (planOf c d).graph.layout sweeps = .ok drawing.placed := by
  simp only [drawingOf] at h
  cases hl : (planOf c d).graph.layout sweeps
  case error => simp [hl, Except.map] at h
  case ok p =>
    simp only [hl, Except.map, Except.ok.injEq] at h
    simp [← h]

theorem contains_start {b : Bounds Rat} {p : Cell} {margin : Margin Rat} (hb : b.Within (drawing.placed.area margin))
    (hx : 0 ≤ margin.x) (hy : 0 ≤ margin.y) (hp : (CellRect.ofBounds b).contains p) (charset : Charset)
    (recording : Bool) : (drawing.start charset recording).contains p := by
  obtain ⟨hl, ht, hr, hbottom⟩ := hb
  simp only [PlacedGraph.area] at hl ht hr hbottom
  have hleft := toCell_mono (hx.trans hl)
  have htop := toCell_mono (hy.trans ht)
  have hright : toCell b.right ≤ toCell drawing.placed.width := toCell_mono (by linarith)
  have hheight : toCell b.bottom ≤ toCell drawing.placed.height := toCell_mono (by linarith)
  rw [toCell_zero] at hleft htop
  obtain ⟨⟨_, _⟩, _, _⟩ := CellRect.contains_ofBounds_iff.mp hp
  rw [Canvas.contains_iff]
  simp only [start, Canvas.blank]
  omega

section Framed

variable (hf : Framed drawing.plan.graph drawing.placed)
variable (hn : drawing.plan.graph.nodes = drawing.plan.figures.map Figure.node)
include hf hn

theorem map_placed_nodes : drawing.placed.nodes.map (fun n => (n.id, n.width, n.height)) =
    drawing.plan.figures.map fun f => (f.id, (f.width : Rat), (f.height : Rat)) := by
  rw [hf.nodes, hn, List.map_map]
  rfl

theorem rects_eq : drawing.rects = drawing.placed.nodes.map fun n => (n.id, CellRect.ofBounds n.bounds) := by
  refine List.map_congr_left fun n hmem => ?_
  obtain ⟨f, _, hnf⟩ := List.mem_map.mp (map_placed_nodes hf hn ▸ List.mem_map_of_mem hmem)
  simp only [Prod.mk.injEq] at hnf
  rw [CellRect.ofNode_eq hnf.right.left.symm hnf.right.right.symm]

theorem boxes_eq : drawing.rects.map (fun x => (x.1, x.2.width, x.2.height)) =
    drawing.plan.figures.map fun f => (f.id, f.width, f.height) := by
  have h := congrArg (List.map fun x : String × Rat × Rat => (x.1, Scalar.nearest x.2.1, Scalar.nearest x.2.2))
    (map_placed_nodes hf hn)
  simpa only [rects, List.map_map, Function.comp_def, CellRect.ofNode, Scalar.nearest_intCast] using h

theorem rects_apart : drawing.rects.Pairwise fun x y => ∀ p, ¬(x.2.contains p ∧ y.2.contains p) := by
  rw [rects_eq hf hn, List.pairwise_map]
  exact (List.pairwise_map.mp hf.apart).imp fun hapart => CellRect.not_contains_of_apart hapart

theorem rects_onCanvas (hx : 0 ≤ drawing.plan.graph.margin.x) (hy : 0 ≤ drawing.plan.graph.margin.y) :
    ∀ x ∈ drawing.rects, ∀ p, x.2.contains p → ∀ charset recording, (drawing.start charset recording).contains p := by
  intro x hmem p hp charset recording
  obtain ⟨n, hn, rfl⟩ := List.mem_map.mp (rects_eq hf hn ▸ hmem)
  exact contains_start (hf.margins n hn) hx hy hp charset recording

theorem rects_inFrames {pad header : Int} (hpad : drawing.plan.graph.spacing.groupPadding = pad)
    (hheader : drawing.plan.graph.spacing.groupHeader = header) (hp : 0 < pad) (hh : 0 ≤ header) :
    ∀ x ∈ drawing.rects, ∀ g ∈ drawing.placed.allGroups,
      g.id ∈ ownerPath (forest [] drawing.plan.graph.groups) x.1 → (CellRect.ofGroup g).Encloses x.2 := by
  intro x hmem g hg hid
  obtain ⟨n, hn, rfl⟩ := List.mem_map.mp (rects_eq hf hn ▸ hmem)
  have hframes := hf.frames n hn g hg hid
  rw [hpad, hheader] at hframes
  exact CellRect.ofGroup_eq g ▸ CellRect.encloses_of_frames hframes hp hh

end Framed

theorem tidy_of_drawingOf {charset : Charset} {paddingX paddingY : Nat}
    (h : drawingOf (Config.inCells charset paddingX paddingY) sweeps d = .ok drawing) : drawing.Tidy := by
  obtain ⟨hplan, hlayout⟩ := layout_of_drawingOf h
  have hf := SizedGraph.layout_framed hlayout (measured_planOf (Config.isMeasure_inCells charset paddingX paddingY) d)
  have hn := nodes_planOf (Config.inCells charset paddingX paddingY) d
  have hmargin := margin_planOf (Config.inCells charset paddingX paddingY) d
  have hspacing := spacing_planOf (Config.inCells charset paddingX paddingY) d
  rw [← hplan] at hf hmargin hspacing hn
  constructor
  case boxes => exact boxes_eq hf hn
  case groups =>
    intro hne
    refine hf.groups ?_
    rw [hn]
    simpa using hne
  case apart => exact rects_apart hf hn
  case onCanvas =>
    apply rects_onCanvas hf hn <;> rw [hmargin]
    all_goals norm_num [Config.canvasMargin, Config.inCells, Config.standard]
  case inFrames =>
    have hpad : drawing.plan.graph.spacing.groupPadding = (2 : Int) := by
      simp [hspacing, Config.spacing, Config.inCells, Config.standard]
    have hheader : drawing.plan.graph.spacing.groupHeader = (1 : Int) := by
      simp [hspacing, Config.spacing, Config.inCells, Config.standard]
    exact rects_inFrames hf hn hpad hheader (by decide) (by decide)

end Drawing

-- Every text is drawn, unless it repeats a boundary, and all that is drawn is tidy.
theorem drawingOf_text (f : Family) (text : String) (charset : Charset) (paddingX paddingY sweeps : Nat) :
    (¬(Diagram.ofTextIn f text).RepeatsBoundary → ∃ drawing,
      drawingOf (Config.inCells charset paddingX paddingY) sweeps (Diagram.ofTextIn f text) = .ok drawing) ∧
    ∀ drawing, drawingOf (Config.inCells charset paddingX paddingY) sweeps (Diagram.ofTextIn f text) = .ok drawing →
      drawing.Tidy :=
  ⟨fun hr => exists_drawingOf hr _ sweeps, fun _ h => Drawing.tidy_of_drawingOf h⟩

-- A person beside a system inside a boundary.
def boundedSystem : String :=
  "C4Context
  Person(p, \"Reader\")
  Boundary(b, \"Shop\") \x7b
    System(s, \"Stock\")
  \x7d
  Rel(p, s, \"Asks\")"

theorem drawingOf_text_boundedSystem : ∃ drawing,
    drawingOf (Config.inCells .unicode 5 3) 4 (Diagram.ofTextIn .c4 boundedSystem) = .ok drawing ∧ drawing.Tidy ∧
    drawing.rects.map (fun x => (x.1, x.2.width, x.2.height)) = [("p", 10, 6), ("s", 9, 3)] := by
  have hread : Diagram.ofTextIn .c4 boundedSystem = .c4 {
      kind := "C4Context"
      elements := [{ kind := "Person", id := "p", label := "Reader" },
        { kind := "System", id := "s", label := "Stock", parent := some "b" }]
      relationships := [{ source := "p", target := "s", label := "Asks" }]
      boundaries := [{
        id := "b", label := "Shop", kind := "Boundary"
        elements := [{ kind := "System", id := "s", label := "Stock", parent := some "b" }] }] } := rfl
  have hr : ¬(Diagram.ofTextIn .c4 boundedSystem).RepeatsBoundary := by
    rintro ⟨c, hc, _, hn⟩
    rw [hread] at hc
    obtain rfl := Diagram.c4.inj hc
    exact hn (by decide)
  obtain ⟨hdraw, htidy⟩ := drawingOf_text .c4 boundedSystem .unicode 5 3 4
  obtain ⟨drawing, h⟩ := hdraw hr
  refine ⟨drawing, h, htidy drawing h, ?_⟩
  rw [(htidy drawing h).boxes, (Drawing.layout_of_drawingOf h).left, hread]
  rfl

end TextArt

end LayeredDiagram
