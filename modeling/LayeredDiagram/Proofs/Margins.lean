import LayeredDiagram.Proofs.Framing
/-!
The margins of a drawing. The area that they leave is the smallest rectangle around everything that is drawn: the boxes
of nodes, the rectangles of groups at any depth, stretched or not, the boxes kept free for labels, and the routes.
-/

namespace LayeredDiagram

open LayeredDiagram.Group

namespace Bounds

variable {b c r : Bounds Rat} {bs : List (Bounds Rat)} {dx dy : Rat}

-- A rectangle goes around others, and on each side one of them reaches it.
structure Fits (r : Bounds Rat) (bs : List (Bounds Rat)) : Prop where
  within : ∀ b ∈ bs, b.Within r
  left : ∃ b ∈ bs, b.left = r.left
  top : ∃ b ∈ bs, b.top = r.top
  right : ∃ b ∈ bs, b.right = r.right
  bottom : ∃ b ∈ bs, b.bottom = r.bottom

-- By induction on the rectangles: each side of a union is that of one of its parts.
theorem exists_side_of_foldl_union (side : Bounds Rat → Rat)
    (hs : ∀ b c, side (b.union c) = side b ∨ side (b.union c) = side c) :
    ∃ c ∈ b :: bs, side c = side (bs.foldl union b) := by
  induction bs generalizing b
  case nil => exact ⟨b, List.mem_cons_self, rfl⟩
  case cons c bs hi =>
    obtain ⟨d, hd, hside⟩ := hi (b := b.union c)
    rw [List.foldl_cons]
    rcases List.mem_cons.mp hd with rfl | hd
    · rcases hs b c with h | h
      · exact ⟨b, List.mem_cons_self, h.symm.trans hside⟩
      · exact ⟨c, List.mem_cons_of_mem _ List.mem_cons_self, h.symm.trans hside⟩
    · exact ⟨d, List.mem_cons_of_mem _ (List.mem_cons_of_mem _ hd), hside⟩

theorem fits_of_hull? (h : hull? bs = some r) : r.Fits bs := by
  have hw := (within_iff_of_hull? h).mp (.refl r)
  cases bs
  case nil => cases h
  case cons b bs =>
    obtain rfl : bs.foldl union b = r := Option.some.inj h
    refine ⟨hw, ?left, ?top, ?right, ?bottom⟩
    case left =>
      refine exists_side_of_foldl_union left fun b c => ?_
      simpa only [union, Scalar.smaller_eq_min] using min_choice b.left c.left
    case top =>
      refine exists_side_of_foldl_union top fun b c => ?_
      simpa only [union, Scalar.smaller_eq_min] using min_choice b.top c.top
    case right =>
      refine exists_side_of_foldl_union right fun b c => ?_
      simpa only [union, Scalar.larger_eq_max] using max_choice b.right c.right
    case bottom =>
      refine exists_side_of_foldl_union bottom fun b c => ?_
      simpa only [union, Scalar.larger_eq_max] using max_choice b.bottom c.bottom

theorem Fits.shift (h : r.Fits bs) (dx dy : Rat) : (r.shift dx dy).Fits (bs.map (Bounds.shift dx dy)) := by
  have moved {side : Bounds Rat → Rat} {d : Rat} (hs : ∀ b : Bounds Rat, side (b.shift dx dy) = side b + d)
      (hb : ∃ b ∈ bs, side b = side r) : ∃ b ∈ bs.map (Bounds.shift dx dy), side b = side (r.shift dx dy) := by
    obtain ⟨b, hb, hbr⟩ := hb
    exact ⟨b.shift dx dy, List.mem_map_of_mem hb, by rw [hs, hs, hbr]⟩
  refine ⟨?within, moved (fun _ => rfl) h.left, moved (fun _ => rfl) h.top, moved (fun _ => rfl) h.right,
    moved (fun _ => rfl) h.bottom⟩
  case within =>
    intro b hb
    obtain ⟨c, hc, rfl⟩ := List.mem_map.mp hb
    exact (h.within c hc).shift

end Bounds

namespace SizedGraph

variable {g : SizedGraph Rat} {p : PlacedGraph Rat} {raw : RawLayout Rat} {sweeps : Nat}

theorem extents_shift (labels : List (Bounds Rat)) (nodes : List (PlacedNode Rat)) (edges : List (PlacedEdge Rat))
    (groups : List (PlacedGroup Rat)) (dx dy : Rat) :
    extents (labels.map (Bounds.shift dx dy)) (nodes.map (·.shift dx dy)) (edges.map (·.shift dx dy))
        (PlacedGroup.shiftAll dx dy groups) =
      (extents labels nodes edges groups).map (Bounds.shift dx dy) := by
  have hpoints (e : PlacedEdge Rat) :
      (e.shift dx dy).points.map Bounds.ofPoint = (e.points.map Bounds.ofPoint).map (Bounds.shift dx dy) := by
    rw [PlacedEdge.shift, List.map_map, List.map_map]
    rfl
  simp only [extents, PlacedGroup.walkAll_shiftAll, List.map_append, List.map_map, List.map_flatMap, List.flatMap_map,
    Function.comp_def, PlacedNode.bounds_shift, PlacedGroup.bounds_shift, hpoints]

-- Everything that is drawn of a graph. The points of routes are rectangles without extent.
def drawn (g : SizedGraph Rat) (p : PlacedGraph Rat) : List (Bounds Rat) :=
  extents (g.reserved p) p.nodes p.edges p.groups

-- Everything is moved by the same distance.
theorem fits_assemble (hn : g.placeNodes raw ≠ []) :
    ((g.assemble raw).area g.margin).Fits (g.drawn (g.assemble raw)) := by
  obtain ⟨hull, hh⟩ : ∃ hull, Bounds.hull? (extents (labelBounds g raw) (g.placeNodes raw) (g.placeEdges raw)
      (g.placeGroups raw)) = some hull := Bounds.exists_hull? (by simp [extents, hn])
  have hp : g.assemble raw = _ := onCanvas_eq hh
  have harea : (g.assemble raw).area g.margin = _ := area_onCanvas hh
  have hlabels : g.reserved (g.assemble raw) = (labelBounds g raw).map (Bounds.shift _ _) := reserved_eq (by rw [hp])
  rw [harea, drawn, hlabels, hp, extents_shift]
  exact (Bounds.fits_of_hull? hh).shift _ _

-- All nodes and groups are drawn, and all labels have their room. The margins are free around all that is drawn, and
-- they are not larger than that on any side.
theorem layout_fits (hn : g.nodes ≠ []) (h : g.layout sweeps = .ok p) :
    p.nodes.map (·.id) = g.nodes.map (·.id) ∧ p.allGroups.map (·.id) = (forest [] g.groups).map (·.id) ∧
    p.edges.map (·.labelAnchor.isSome) = g.realEdges.map (fun x => x.1.hasLabel) ∧
    (p.area g.margin).Fits (g.drawn p) := by
  have hids := (layout_lists h).left
  obtain ⟨hw, _, rfl⟩ := layout_eq h hn
  refine ⟨hids, ?groups, ?labels, fits_assemble ?nodes⟩
  case groups =>
    have hmoved (d : PlacedGroup Rat) (dx dy : Rat) : (d.shift dx dy).id = d.id := PlacedGroup.id_shift d
    simp only [PlacedGraph.allGroups, assemble, onCanvas, PlacedGroup.walkAll_shiftAll, List.map_map,
      Function.comp_def, hmoved]
    exact map_id_placeGroups g _
  case labels =>
    exact map_labelAnchor rfl fun x hx => Solution.isSome_lookup_labelAnchors_iff hw rfl _
      (getElem?_of_mem_realEdges hx) (kind_of_mem_realEdges hx)
  case nodes =>
    intro hnil
    have hempty := (map_id_placeNodes g sweeps).symm.trans (congrArg (List.map (·.id)) hnil)
    exact hn (by simpa using hempty)

-- Groups of which the outermost ones are stretched, with a group inside one of them and a loop with a label.
def stretchedGroups : SizedGraph Rat :=
  { Arrangement.nestedGroups with uniformBands := true }

theorem layout_fits_stretchedGroups : stretchedGroups.nodes ≠ [] ∧ ∃ p, stretchedGroups.layout 4 = .ok p ∧
    p.allGroups.map (·.id) = ["outer", "inner", "other"] ∧
    p.edges.map (·.labelAnchor.isSome) = [true, false, true, false] ∧
    (p.area stretchedGroups.margin).Fits (stretchedGroups.drawn p) := by
  have hn : stretchedGroups.nodes ≠ [] := by simp [stretchedGroups, Arrangement.nestedGroups]
  obtain ⟨p, hp⟩ := exists_layout rfl hn (Register.error?_eq_none_iff.mp (by decide)) 4
  obtain ⟨_, hgroups, hlabels, hfits⟩ := layout_fits hn hp
  exact ⟨hn, p, hp, hgroups.trans rfl, hlabels.trans (by decide), hfits⟩

end SizedGraph

end LayeredDiagram
