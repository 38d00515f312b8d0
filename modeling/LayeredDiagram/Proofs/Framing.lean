import LayeredDiagram.Proofs.FlatGroups
import LayeredDiagram.Proofs.Overlap
/-!
Nodes on the canvas and in the groups around them, at any depth and whether or not groups are stretched: the margins
around all nodes are free, and every group around a node holds it with its padding and its header.
-/

namespace LayeredDiagram

open LayeredDiagram.Group

variable {g : SizedGraph Rat} {place : String → Nat} {s : Solution Rat} {p : PlacedGraph Rat}
variable {n : SizedNode Rat} {e : Entry} {dx dy : Rat}

section Canvas

variable {margin : Margin Rat} {labels : List (Bounds Rat)} {nodes : List (PlacedNode Rat)}
variable {edges : List (PlacedEdge Rat)} {groups : List (PlacedGroup Rat)} {d : PlacedNode Rat} {b : Bounds Rat}

-- What the margins of a canvas leave.
def PlacedGraph.area (p : PlacedGraph Rat) (margin : Margin Rat) : Bounds Rat :=
  ⟨margin.x, margin.y, p.width - margin.x, p.height - margin.y⟩

-- All that the margins are put around.
def SizedGraph.extents (labels : List (Bounds Rat)) (nodes : List (PlacedNode Rat)) (edges : List (PlacedEdge Rat))
    (groups : List (PlacedGroup Rat)) : List (Bounds Rat) :=
  nodes.map (·.bounds) ++ (PlacedGroup.walkAll groups).map (·.bounds) ++ labels ++
    edges.flatMap fun e => e.points.map Bounds.ofPoint

section Hull

variable {hull : Bounds Rat} (h : Bounds.hull? (SizedGraph.extents labels nodes edges groups) = some hull)
include h

theorem SizedGraph.onCanvas_eq : onCanvas margin labels nodes edges groups = {
    width := hull.width + 2 * margin.x
    height := hull.height + 2 * margin.y
    nodes := nodes.map (·.shift (margin.x - hull.left) (margin.y - hull.top))
    edges := edges.map (·.shift (margin.x - hull.left) (margin.y - hull.top))
    groups := PlacedGroup.shiftAll (margin.x - hull.left) (margin.y - hull.top) groups } := by
  rw [extents] at h
  rw [onCanvas, h, Option.getD_some]

-- The area is where the hull of it all is moved to.
theorem SizedGraph.area_onCanvas : (onCanvas margin labels nodes edges groups).area margin =
    hull.shift (margin.x - hull.left) (margin.y - hull.top) := by
  rw [onCanvas_eq h]
  ext <;> simp only [PlacedGraph.area, Bounds.shift, Bounds.width, Bounds.height] <;> ring

end Hull

theorem SizedGraph.within_area_of_mem (hb : b ∈ extents labels nodes edges groups) :
    let hull := (Bounds.hull? (extents labels nodes edges groups)).getD ⟨0, 0, 0, 0⟩
    (b.shift (margin.x - hull.left) (margin.y - hull.top)).Within
      ((onCanvas margin labels nodes edges groups).area margin) := by
  obtain ⟨hull, hhull⟩ := Bounds.exists_hull? (List.ne_nil_of_mem hb)
  rw [hhull, Option.getD_some, area_onCanvas hhull]
  exact ((Bounds.within_iff_of_hull? hhull).mp (.refl hull) b hb).shift

theorem SizedGraph.within_area_onCanvas (hd : d ∈ (onCanvas margin labels nodes edges groups).nodes) :
    d.bounds.Within ((onCanvas margin labels nodes edges groups).area margin) := by
  obtain ⟨n, hn, rfl⟩ := List.mem_map.mp hd
  rw [PlacedNode.bounds_shift]
  refine within_area_of_mem (List.mem_append_left _ (List.mem_append_left _ (List.mem_append_left _ ?_)))
  exact List.mem_map_of_mem hn

theorem SizedGraph.group_within_area_onCanvas {d : PlacedGroup Rat}
    (hd : d ∈ (onCanvas margin labels nodes edges groups).allGroups) :
    d.bounds.Within ((onCanvas margin labels nodes edges groups).area margin) := by
  simp only [PlacedGraph.allGroups, onCanvas, PlacedGroup.walkAll_shiftAll] at hd
  obtain ⟨n, hn, rfl⟩ := List.mem_map.mp hd
  rw [PlacedGroup.bounds_shift]
  refine within_area_of_mem (List.mem_append_left _ (List.mem_append_left _ (List.mem_append_right _ ?_)))
  exact List.mem_map_of_mem hn

end Canvas

namespace PlacedGroup

variable {d : PlacedGroup Rat} {ds : List (PlacedGroup Rat)}

theorem walk_eq (d : PlacedGroup Rat) : walk d = d :: walkAll d.children := by
  cases d
  rfl

theorem walkAll_eq_flatMap (ds : List (PlacedGroup Rat)) : walkAll ds = ds.flatMap walk := by
  induction ds
  case nil => simp [walkAll]
  case cons root ds hi => simp [walkAll, hi]

theorem map_id_walkAll_stretch (ds : List (PlacedGroup Rat)) :
    (walkAll (stretch ds)).map (·.id) = (walkAll ds).map (·.id) := by
  unfold stretch
  split
  case h_2 => rfl
  case h_1 =>
    rw [walkAll_eq_flatMap, walkAll_eq_flatMap, List.flatMap_map, List.map_flatMap, List.map_flatMap]
    exact List.flatMap_congr fun root _ => by simp [walk_eq]

theorem mem_walkAll_of_mem {root : PlacedGroup Rat} (h : root ∈ ds) : root ∈ walkAll ds := by
  rw [walkAll_eq_flatMap, List.mem_flatMap]
  exact ⟨root, h, walk_eq root ▸ List.mem_cons_self⟩

-- What stretching does: nothing to a group inside another one, and it moves both sides of an outermost group outwards.
theorem mem_stretch_cases (hd : d ∈ walkAll (stretch ds)) : d ∈ walkAll ds ∨
    ∃ root ∈ ds, ∃ left right, left ≤ root.x ∧ root.right ≤ right ∧ d = { root with x := left, width := right - left } := by
  unfold stretch at hd
  split at hd
  case h_2 => exact .inl hd
  case h_1 left right hleft hright =>
    rw [walkAll_eq_flatMap, List.flatMap_map] at hd
    obtain ⟨root, hroot, hd⟩ := List.mem_flatMap.mp hd
    rw [walk_eq] at hd
    rcases List.mem_cons.mp hd with rfl | hd
    · have hle := (Scalar.smallest?_eq_some_iff.mp hleft).right _ (List.mem_map_of_mem hroot)
      have hge := (Scalar.largest?_eq_some_iff.mp hright).right _ (List.mem_map_of_mem hroot)
      exact .inr ⟨root, hroot, left, right, hle, hge, rfl⟩
    · rw [walkAll_eq_flatMap]
      exact .inl (List.mem_flatMap.mpr ⟨root, hroot, walk_eq root ▸ List.mem_cons_of_mem _ hd⟩)

-- Stretched groups hold what the groups held before.
theorem exists_within_of_mem_stretch (hd : d ∈ walkAll (stretch ds)) :
    ∃ c ∈ walkAll ds, c.id = d.id ∧ c.bounds.Within d.bounds := by
  rcases mem_stretch_cases hd with hd | ⟨root, hroot, left, right, hle, hge, rfl⟩
  · exact ⟨d, hd, rfl, .refl _⟩
  · refine ⟨root, mem_walkAll_of_mem hroot, rfl, hle, le_rfl, ?_, le_rfl⟩
    change root.right ≤ left + (right - left)
    linarith

end PlacedGroup

theorem SizedGraph.map_id_placeGroups (g : SizedGraph Rat) (raw : RawLayout Rat) :
    (PlacedGroup.walkAll (g.placeGroups raw)).map (·.id) = (forest [] g.groups).map (·.id) := by
  have hids := congrArg (List.map Prod.fst) (PlacedGroup.map_walkAll_ofGroups
    (PlacedGroup.rectangles (g.boxes raw) raw.placeholders g.spacing g.groups) g.groups [])
  simp only [List.map_map, Function.comp_def] at hids
  rw [placeGroups]
  split
  case isTrue => rw [PlacedGroup.map_id_walkAll_stretch, hids]
  case isFalse => exact hids

namespace Drawn

variable (h : Drawn g s dx dy p)
include h

theorem map_id_allGroups : p.allGroups.map (·.id) = (forest [] g.groups).map (·.id) := by
  rw [PlacedGraph.allGroups, h.groups, PlacedGroup.walkAll_shiftAll, List.map_map]
  simp only [Function.comp_def, PlacedGroup.id_shift]
  exact SizedGraph.map_id_placeGroups g _

-- A drawn group holds the rectangle of its group.
theorem exists_entry {d : PlacedGroup Rat} (hd : d ∈ p.allGroups) :
    ∃ e ∈ forest [] g.groups, e.id = d.id ∧ ((g.groupBounds s e).shift dx dy).Within d.bounds := by
  rw [PlacedGraph.allGroups, h.groups, PlacedGroup.walkAll_shiftAll] at hd
  obtain ⟨c, hc, rfl⟩ := List.mem_map.mp hd
  obtain ⟨c', hc', hid, hw⟩ : ∃ c' ∈ PlacedGroup.walkAll (PlacedGroup.ofGroups (g.groupTable s) g.groups),
      c'.id = c.id ∧ c'.bounds.Within c.bounds := by
    simp only [SizedGraph.placeGroups] at hc
    split at hc
    case isTrue => exact PlacedGroup.exists_within_of_mem_stretch hc
    case isFalse => exact ⟨c, hc, rfl, .refl _⟩
  have hm := List.mem_map_of_mem (f := fun d => (d.id, d.bounds)) hc'
  rw [PlacedGroup.map_walkAll_ofGroups _ g.groups []] at hm
  obtain ⟨e, he, heq⟩ := List.mem_map.mp hm
  obtain ⟨hei, heb⟩ := Prod.mk.inj heq
  refine ⟨e, he, by rw [PlacedGroup.id_shift, hei, hid], ?_⟩
  rw [PlacedGroup.bounds_shift, SizedGraph.groupBounds, heb]
  exact hw.shift

end Drawn

-- By induction on the nesting: a group around a node owns it, or a group directly inside is around it.
theorem Stacked.frames_of_mem_ownerPath (hs : Stacked g place s) (he : e ∈ forest [] g.groups) (hn : n ∈ g.nodes)
    (hg : e.id ∈ ownerPath (forest [] g.groups) n.id) :
    Bounds.Frames g.spacing.groupPadding g.spacing.groupHeader (g.groupBounds s e) (g.nodeBounds s n) := by
  have hF := hs.arranged.forest
  induction e, he using inner_induction
  case step e he ih =>
    rw [hs.groupBounds_eq he]
    obtain ⟨rest, hrest⟩ := (hF.mem_iff_path_prefix (isPath_ownerPath _ n.id) he).mp hg
    cases rest
    case nil =>
      refine Content.frames_around (c := g.content s) (hs.nodeBounds_mem_inside hn ?_)
      cases ho : owner? (forest [] g.groups) n.id
      case none =>
        simp only [ownerPath, ho, List.append_nil] at hrest
        exact absurd hrest (hF.path_ne_nil he)
      case some k =>
        simp only [ownerPath, ho, List.append_nil] at hrest
        rw [hF.eq_of_path_eq he (List.mem_of_find?_eq_some ho) hrest]
    case cons f rest =>
      have hinit : e.path ++ [f] <+: ownerPath (forest [] g.groups) n.id := ⟨rest, by simp [← hrest]⟩
      obtain ⟨f, hf, rfl, hp⟩ := hF.exists_of_isPath_concat (hF.isPath_of_prefix (isPath_ownerPath _ n.id) hinit)
      have hinner := ih f hf hp (hinit.subset (by simp))
      have hparent : f.parent? = some e.id := by
        rw [Entry.parent?, hp, List.dropLast_concat, hF.getLast?_path he]
      have houter := Content.frames_around (c := g.content s) (hs.groupBounds_mem_inside he hf hparent)
      exact (hinner.within (hs.nonneg (by simp [Spacing.lengths])) (hs.nonneg (by simp [Spacing.lengths]))).frames houter

-- Nodes as they are drawn: apart from each other, with free margins, and inside the groups around them. A node belongs
-- to the first group that lists it, and so to the groups around that one.
structure Framed (g : SizedGraph Rat) (p : PlacedGraph Rat) : Prop where
  nodes : p.nodes.map (fun d => (d.id, d.width, d.height)) = g.nodes.map fun n => (n.id, n.width, n.height)
  groups : g.nodes ≠ [] → p.allGroups.map (·.id) = (forest [] g.groups).map (·.id)
  apart : (p.nodes.map (·.bounds)).Pairwise Bounds.Apart
  margins : ∀ d ∈ p.nodes, d.bounds.Within (p.area g.margin)
  frames : ∀ d ∈ p.nodes, ∀ c ∈ p.allGroups, c.id ∈ ownerPath (forest [] g.groups) d.id →
    Bounds.Frames g.spacing.groupPadding g.spacing.groupHeader c.bounds d.bounds

theorem SizedGraph.layout_framed {sweeps : Nat} (h : g.layout sweeps = .ok p)
    (hm : Measured g.nodes g.edges g.spacing) : Framed g p := by
  by_cases hn : g.nodes = []
  case pos =>
    obtain rfl := layout_of_nil h hn
    constructor <;> simp [hn]
  case neg =>
    obtain ⟨rfl, place, dx, dy, hs, hd⟩ := exists_drawn_solution h hn hm
    refine ⟨hd.sizes, fun _ => hd.map_id_allGroups, hd.nodes_apart hs, fun _ hdm => within_area_onCanvas hdm, ?_⟩
    intro d hdm c hc hid
    obtain ⟨e, he, heid, hwithin⟩ := hd.exists_entry hc
    obtain ⟨n, hn, hdn, hbounds⟩ := hd.exists_node hdm
    rw [← heid, hdn] at hid
    rw [hbounds]
    exact ((hs.frames_of_mem_ownerPath he hn hid).shift).of_within hwithin

end LayeredDiagram
