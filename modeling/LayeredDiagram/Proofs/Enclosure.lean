import LayeredDiagram.Proofs.GroupBounds
import LayeredDiagram.Proofs.Sides
/-!
The rectangles of groups in a drawn graph. Each of them stays between the bounds of its group and within the room
kept above and below the ranks that the group spans. So groups hold what belongs to them, with padding and headers,
and they are apart from everything else.
-/

namespace LayeredDiagram

open LayeredDiagram.Group

variable {g : SizedGraph Rat} {place : String → Nat} {s : Solution Rat} {p : PlacedGraph Rat}
variable {n : SizedNode Rat} {i j : Item Rat} {e f : Entry} {b : Bounds Rat} {m : String}

namespace SizedGraph

-- What the groups of a graph are put around.
def content (g : SizedGraph Rat) (s : Solution Rat) : Content Rat :=
  ⟨forest [] g.groups, g.boxes (g.rawOf s), s.placeholders, g.spacing⟩

-- All rectangles of groups.
def groupTable (g : SizedGraph Rat) (s : Solution Rat) : List (String × Bounds Rat) :=
  ((g.content s).measureAll g.groups).all

-- The rectangle of a group.
def groupBounds (g : SizedGraph Rat) (s : Solution Rat) (e : Entry) : Bounds Rat :=
  Content.found (g.groupTable s) e.id

theorem placeGroups_eq (hu : g.uniformBands = false) :
    g.placeGroups (g.rawOf s) = PlacedGroup.ofGroups (g.groupTable s) g.groups := by
  simp only [placeGroups, hu, Bool.false_eq_true, if_false]
  rfl

-- What a group is put around.
def inside (g : SizedGraph Rat) (s : Solution Rat) (e : Entry) : List (Bounds Rat) :=
  (g.content s).inside (g.groupTable s) e

end SizedGraph

namespace Stacked

variable (hs : Stacked g place s)
include hs

theorem groupBounds_eq (he : e ∈ forest [] g.groups) :
    g.groupBounds s e = (g.content s).around (g.inside s e) :=
  Content.found_measureAll hs.wellFormed.groups_nodup he

section Inside

theorem eq_of_owns (he : e ∈ forest [] g.groups) (ho : (g.content s).owns e.id m) :
    owner? (forest [] g.groups) m = some e := by
  unfold Content.owns at ho
  split at ho
  case h_1 f hf =>
    have hfm : f ∈ forest [] g.groups := List.mem_of_find?_eq_some hf
    rw [← hs.arranged.forest.eq_of_id_eq hfm he (by simpa using ho)]
    exact hf
  case h_2 => cases ho

theorem memberBounds_cases (he : e ∈ forest [] g.groups)
    (hb : b ∈ (g.content s).memberBounds e.id e.members) :
    ∃ n ∈ g.nodes, owner? (forest [] g.groups) n.id = some e ∧ b = g.nodeBounds s n := by
  have ⟨m, hm, hmb⟩ := List.mem_filterMap.mp hb
  obtain ⟨box, hbox, rfl⟩ := Option.map_eq_some_iff.mp hmb
  have hbm : (m, box) ∈ g.boxes (g.rawOf s) := mem_of_lookup hbox
  rw [hs.boxes_eq] at hbm
  have ⟨n, hn, hnb⟩ := List.mem_map.mp hbm
  obtain ⟨rfl, rfl⟩ := Prod.mk.inj hnb
  exact ⟨n, hn, hs.eq_of_owns he (List.mem_filter.mp hm).right, rfl⟩

omit hs in
theorem path_itemOf (ho : owner? (forest [] g.groups) n.id = some e) : (g.itemOf n).path = e.path := by
  simp only [SizedGraph.itemOf, ownerPath, ho]

theorem nodeBounds_mem_inside (hn : n ∈ g.nodes) (ho : owner? (forest [] g.groups) n.id = some e) :
    g.nodeBounds s n ∈ g.inside s e := by
  have hmem : n.id ∈ e.members := by simpa using List.find?_some ho
  have howns : (g.content s).owns e.id n.id := by
    have : owner? (g.content s).entries n.id = some e := ho
    simp [Content.owns, this]
  have hbox : ((g.content s).boxes.lookup n.id).map Bounds.ofBox = some (g.nodeBounds s n) :=
    congrArg (Option.map Bounds.ofBox) (hs.lookup_boxes hn)
  refine List.mem_append_left _ (List.mem_append_left _ (List.mem_filterMap.mpr ⟨n.id, ?_, hbox⟩))
  exact List.mem_filter.mpr ⟨hmem, howns⟩

theorem groupBounds_mem_inside (he : e ∈ forest [] g.groups) (hf : f ∈ forest [] g.groups)
    (hp : f.parent? = some e.id) : g.groupBounds s f ∈ g.inside s e := by
  cases hs.arranged.forest.parent f hf
  case inl h => simp [Entry.parent?, h] at hp
  case inr h =>
    obtain ⟨k, hk, hpath, hc⟩ := h
    rw [Entry.parent?, hpath, List.dropLast_concat, hs.arranged.forest.getLast?_path hk, Option.some.injEq] at hp
    rw [hs.arranged.forest.eq_of_id_eq hk he hp] at hc
    exact List.mem_append_left _ (List.mem_append_right _ (List.mem_map.mpr ⟨f.id, hc, rfl⟩))

theorem placeholder_cases {box : Box Rat} (he : e ∈ forest [] g.groups)
    (hb : s.placeholders.lookup e.id = some box) :
    ∃ i ∈ s.stock.items, i.path = e.path ∧ Bounds.ofBox box = s.itemBounds i := by
  have ⟨i, hi, hib⟩ := List.mem_filterMap.mp (mem_of_lookup hb)
  split at hib
  case h_1 k hk =>
    obtain ⟨rfl, rfl⟩ := Prod.mk.inj (Option.some.inj hib)
    have hp := Stock.path_of_slot_placeholder hs.arranged.forest he (hs.stock_eq ▸ hi) hk
    exact ⟨i, hi, hp, rfl⟩
  case h_2 => cases hib

-- What a group is put around are the boxes of items directly inside it and the rectangles of its children.
theorem inside_cases (he : e ∈ forest [] g.groups) (hb : b ∈ g.inside s e) :
    (∃ i ∈ s.stock.items, i.path = e.path ∧ b = s.itemBounds i) ∨
    ∃ f ∈ forest [] g.groups, f.path = e.path ++ [f.id] ∧ b = g.groupBounds s f := by
  simp only [SizedGraph.inside, Content.inside, List.mem_append, List.mem_map, Option.mem_toList,
    Option.map_eq_some_iff] at hb
  rcases hb with (hb | ⟨id, hc, rfl⟩) | ⟨box, hbox, rfl⟩
  · obtain ⟨n, hn, ho, rfl⟩ := hs.memberBounds_cases he hb
    exact .inl ⟨g.itemOf n, hs.itemOf_mem hn, path_itemOf ho, rfl⟩
  · obtain ⟨f, hf, rfl, hp⟩ := hs.arranged.forest.child e he id hc
    exact .inr ⟨f, hf, hp, rfl⟩
  · exact .inl (hs.placeholder_cases he hbox)

theorem placeholder_mem_inside (hi : i ∈ s.stock.items) (hk : i.slot = .placeholder e.id) :
    s.itemBounds i ∈ g.inside s e := by
  have hl : (g.content s).placeholders.lookup e.id = some (Box.around (s.center i) i.width i.height) :=
    hs.lookup_placeholders hi hk
  refine List.mem_append_right _ ?_
  simp [hl, Solution.itemBounds]

-- A group without children has a node, or else a placeholder.
theorem inside_ne_nil (he : e ∈ forest [] g.groups) : g.inside s e ≠ [] := by
  by_cases hc : e.children = []
  case neg => simp [SizedGraph.inside, Content.inside, hc]
  case pos =>
    by_cases hr : Item.ranksOf (Stock.content g.nodes g.edges g.spacing (forest [] g.groups)) e.id = []
    case pos =>
      have ⟨i, hi, hk, _⟩ := Stock.exists_placeholder he hc hr
      exact List.ne_nil_of_mem (hs.placeholder_mem_inside (hs.stock_eq ▸ hi) hk)
    case neg =>
      have ⟨n, hn, ho⟩ := Stock.exists_owned hs.arranged.forest he hc hr
      exact List.ne_nil_of_mem (hs.nodeBounds_mem_inside hn ho)

end Inside

-- By induction on the nesting. Every step of the room above and below is used up by the frame of one group.
theorem groupBounds_within_bands (he : e ∈ forest [] g.groups) {above below : Nat}
    (ha : Enough s.toArrangement (fun g => (s.stock.span g).1) e above)
    (hb : Enough s.toArrangement (fun g => (s.stock.span g).2) e below) :
    s.bandTop g.spacing (s.stock.span e.id).1 - above * (g.spacing.groupPadding + g.spacing.groupHeader) ≤
        (g.groupBounds s e).top ∧
      (g.groupBounds s e).bottom ≤ s.bandBottom g.spacing (s.stock.span e.id).2 + below * g.spacing.groupPadding := by
  have hA := hs.arranged
  induction e, he using inner_induction generalizing above below
  case step e he ih =>
    rw [hs.groupBounds_eq he]
    apply Content.around_between (c := g.content s) (hs.inside_ne_nil he)
    intro b hbi
    simp only [SizedGraph.content]
    cases hs.inside_cases he hbi
    case inl h =>
      obtain ⟨i, hi, hp, rfl⟩ := h
      have hg : e.id ∈ i.path := hp ▸ hA.forest.id_mem_path he
      have ht := hs.topSide.reach_le hA he ha hi hg
      have hd := hs.bottomSide.reach_le hA he hb hi hg
      have hroom := hs.bandTop_le_room hi
      have hroom' := hs.room_le_bandBottom hi
      simp only [Solution.room] at hroom hroom'
      simp only [Solution.itemBounds, Bounds.ofBox, Box.around]
      constructor <;> linarith
    case inr h =>
      obtain ⟨f, hf, hp, rfl⟩ := h
      obtain ⟨m, hm, ht⟩ := hs.topSide.exists_of_child hA he hf hp ha
      obtain ⟨k, hk, hd⟩ := hs.bottomSide.exists_of_child hA he hf hp hb
      obtain ⟨ht', hd'⟩ := ih f hf hp hm hk
      constructor <;> linarith

-- The room that is kept on the first and the last rank of a group is enough for it.
theorem groupBounds_within_ranks (he : e ∈ forest [] g.groups) :
    s.bandTop g.spacing (s.stock.span e.id).1 -
        RankBand.headers g.spacing s.stock.span (s.layers[(s.stock.span e.id).1]?.getD []) ≤
        (g.groupBounds s e).top ∧
      (g.groupBounds s e).bottom ≤ s.bandBottom g.spacing (s.stock.span e.id).2 +
        RankBand.closing s.stock.span (s.layers[(s.stock.span e.id).2]?.getD []) * g.spacing.groupPadding :=
  hs.groupBounds_within_bands he (enough_most hs.arranged) (enough_most hs.arranged)

-- Below a group there is room for it above every rank that comes later.
theorem bottom_le_bandTop (he : e ∈ forest [] g.groups) (hi : i ∈ s.stock.items)
    (hlt : (s.stock.span e.id).2 < i.rank) : (g.groupBounds s e).bottom +
      RankBand.headers g.spacing s.stock.span (s.layers[i.rank]?.getD []) ≤ s.bandTop g.spacing i.rank := by
  have hb := (hs.groupBounds_within_ranks he).right
  have ⟨j, hj, _, hjr⟩ := hs.arranged.exists_last he
  rw [← hjr] at hb hlt
  have := hs.bandBottom_le_bandTop hj hi hlt
  linarith

theorem bandBottom_le_top (he : e ∈ forest [] g.groups) (hi : i ∈ s.stock.items)
    (hlt : i.rank < (s.stock.span e.id).1) : s.bandBottom g.spacing i.rank ≤ (g.groupBounds s e).top := by
  have ht := (hs.groupBounds_within_ranks he).left
  have ⟨j, hj, _, hjr⟩ := hs.arranged.exists_first he
  rw [← hjr] at ht hlt
  have := hs.bandBottom_le_bandTop hi hj hlt
  have := hs.closing_nonneg i.rank
  linarith

-- On separate ranks one group is above the other.
theorem groupBounds_above (he : e ∈ forest [] g.groups) (hf : f ∈ forest [] g.groups)
    (hlt : (s.stock.span e.id).2 < (s.stock.span f.id).1) : (g.groupBounds s e).bottom ≤ (g.groupBounds s f).top := by
  have ⟨j, hj, _, hr⟩ := hs.arranged.exists_first hf
  have hle := (hs.groupBounds_within_ranks hf).left
  rw [← hr] at hle hlt
  have := hs.bottom_le_bandTop he hj hlt
  linarith

end Stacked

namespace Solved

variable (hs : Solved g place s)
include hs

-- By induction on the nesting: what is inside a group keeps its padding to the bounds of the group.
theorem groupBounds_within_bounds (he : e ∈ forest [] g.groups) :
    s.x.value (.left e.id) ≤ (g.groupBounds s e).left ∧ (g.groupBounds s e).right ≤ s.x.value (.right e.id) := by
  have hA := hs.arranged
  induction e, he using inner_induction
  case step e he ih =>
    rw [hs.groupBounds_eq he]
    apply Content.around_beside (c := g.content s) (hs.inside_ne_nil he)
    intro b hbi
    simp only [SizedGraph.content]
    cases hs.inside_cases he hbi
    case inl h =>
      obtain ⟨i, hi, hp, rfl⟩ := h
      obtain ⟨hl, hr⟩ := hs.spaced.padding_of_item hA he hi hp
      have hw := hs.around_within_room hi
      have hwl := hw.left
      have hwr := hw.right
      simp only [Solution.room] at hwl hwr
      constructor <;> linarith
    case inr h =>
      obtain ⟨f, hf, hp, rfl⟩ := h
      obtain ⟨hl, hr⟩ := hs.spaced.padding_of_child hA hf he hp
      obtain ⟨hl', hr'⟩ := ih f hf hp
      constructor <;> linarith

-- What is not in a group is apart from its rectangle.
theorem groupBounds_apart_room (he : e ∈ forest [] g.groups) (hi : i ∈ s.stock.items) (hn : e.id ∉ i.path) :
    (g.groupBounds s e).Apart (s.room i) := by
  have hA := hs.arranged
  rcases lt_or_ge (s.stock.span e.id).2 i.rank with hb | hb
  · have hle := hs.bottom_le_bandTop he hi hb
    have := hs.headers_nonneg i.rank
    have := hs.bandTop_le_room hi
    exact .inr (.inr (.inl (by linarith)))
  rcases lt_or_ge i.rank (s.stock.span e.id).1 with ht | ht
  · have hle := hs.bandBottom_le_top he hi ht
    exact .inr (.inr (.inr ((hs.room_le_bandBottom hi).trans hle)))
  -- the group has an item on the rank, and the two are beside each other from where their paths part
  have ⟨j, hj, hg, hr⟩ := hA.exists_item_of_span he ht hb
  have hw := hs.groupBounds_within_bounds he
  have ⟨hl, hr', _⟩ := hs.spaced.bounds_hold hA hi (Chain.commonPath_prefix_left i.path e.path)
  cases hs.spaced.beside_group hA he hi hj hr.symm hn hg
  case inl h => exact .inr (.inl (hr'.trans (h.trans hw.left)))
  case inr h => exact .inl (hw.right.trans (h.trans hl))

-- On separate ranks one group is above the other, and on shared ranks they are beside each other.
theorem groupBounds_apart (he : e ∈ forest [] g.groups) (hf : f ∈ forest [] g.groups) (hef : e.id ∉ f.path)
    (hfe : f.id ∉ e.path) : (g.groupBounds s e).Apart (g.groupBounds s f) := by
  have hA := hs.arranged
  rcases lt_or_ge (s.stock.span e.id).2 (s.stock.span f.id).1 with hb | hb
  · exact .inr (.inr (.inl (hs.groupBounds_above he hf hb)))
  rcases lt_or_ge (s.stock.span f.id).2 (s.stock.span e.id).1 with ht | ht
  · exact .inr (.inr (.inr (hs.groupBounds_above hf he ht)))
  -- the later one of both first ranks is shared
  have span {e : Entry} (he : e ∈ forest [] g.groups) : (s.stock.span e.id).1 ≤ (s.stock.span e.id).2 := by
    have ⟨j, hj, hg, hr⟩ := hA.exists_first he
    exact hr ▸ (hA.span_le he hj hg).right
  have ⟨i, hi, hgi, hir⟩ := hA.exists_item_of_span he (le_max_left ..) (max_le (span he) hb)
  have ⟨j, hj, hgj, hjr⟩ := hA.exists_item_of_span hf (le_max_right ..) (max_le ht (span hf))
  have hwe := hs.groupBounds_within_bounds he
  have hwf := hs.groupBounds_within_bounds hf
  cases hs.spaced.groups_beside hA hf he hfe hef hi hj (hir.trans hjr.symm) hgi hgj
  case inl h => exact .inl (hwe.right.trans (h.trans hwf.left))
  case inr h => exact .inr (.inl (hwf.right.trans (h.trans hwe.left)))

end Solved

-- Groups as they are drawn: around what belongs to them, and apart from everything else. A node belongs to the
-- first group that lists it.
structure DrawsGroups (g : SizedGraph Rat) (p : PlacedGraph Rat) : Prop where
  nodes : p.nodes.map (fun d => (d.id, d.width, d.height)) = g.nodes.map (fun n => (n.id, n.width, n.height))
  groups : g.nodes ≠ [] → p.allGroups.map (·.id) = (forest [] g.groups).map (·.id)
  frames_node : ∀ e ∈ forest [] g.groups, ∀ d ∈ p.allGroups, d.id = e.id →
    ∀ n ∈ p.nodes, owner? (forest [] g.groups) n.id = some e →
      Bounds.Frames g.spacing.groupPadding g.spacing.groupHeader d.bounds n.bounds
  frames_child : ∀ e ∈ forest [] g.groups, ∀ d ∈ p.allGroups, d.id = e.id →
    ∀ f ∈ forest [] g.groups, f.parent? = some e.id → ∀ c ∈ p.allGroups, c.id = f.id →
      Bounds.Frames g.spacing.groupPadding g.spacing.groupHeader d.bounds c.bounds
  groups_apart : ∀ e ∈ forest [] g.groups, ∀ d ∈ p.allGroups, d.id = e.id →
    ∀ f ∈ forest [] g.groups, e.id ∉ f.path → f.id ∉ e.path → ∀ c ∈ p.allGroups, c.id = f.id →
      d.bounds.Apart c.bounds
  node_apart : ∀ e ∈ forest [] g.groups, ∀ d ∈ p.allGroups, d.id = e.id →
    ∀ n ∈ p.nodes, e.id ∉ ownerPath (forest [] g.groups) n.id → d.bounds.Apart n.bounds

namespace Drawn

variable {dx dy : Rat} (h : Drawn g s dx dy p)
include h

theorem map_allGroups (hu : g.uniformBands = false) : p.allGroups.map (fun d => (d.id, d.bounds)) =
    (forest [] g.groups).map fun e => (e.id, (g.groupBounds s e).shift dx dy) := by
  have hw := congrArg (List.map fun x => (x.1, x.2.shift dx dy))
    (PlacedGroup.map_walkAll_ofGroups (g.groupTable s) g.groups [])
  rw [List.map_map, List.map_map] at hw
  rw [PlacedGraph.allGroups, h.groups, SizedGraph.placeGroups_eq hu, PlacedGroup.walkAll_shiftAll, List.map_map]
  refine (List.map_congr_left fun d _ => ?_).trans hw
  exact Prod.ext (PlacedGroup.id_shift d) (PlacedGroup.bounds_shift d)

theorem bounds_of_group (hu : g.uniformBands = false) {d : PlacedGroup Rat} (hd : d ∈ p.allGroups)
    (hid : d.id = e.id) : d.bounds = (g.groupBounds s e).shift dx dy := by
  have hm := List.mem_map_of_mem (f := fun d => (d.id, d.bounds)) hd
  rw [h.map_allGroups hu] at hm
  have ⟨k, _, hk⟩ := List.mem_map.mp hm
  have ⟨hki, hkb⟩ := Prod.mk.inj hk
  rw [← hkb, SizedGraph.groupBounds, SizedGraph.groupBounds, hki, hid]

theorem drawsGroups (hs : Solved g place s) (hu : g.uniformBands = false) : DrawsGroups g p := by
  -- nodes and groups are framed for the same reason: a rectangle is the framed hull of all that is inside
  have frames {e : Entry} {b : Bounds Rat} (he : e ∈ forest [] g.groups) (hb : b ∈ g.inside s e) :
      Bounds.Frames g.spacing.groupPadding g.spacing.groupHeader ((g.groupBounds s e).shift dx dy) (b.shift dx dy) := by
    rw [hs.groupBounds_eq he]
    exact (Content.frames_around (c := g.content s) hb).shift
  constructor
  case nodes => exact h.sizes
  case groups => exact fun _ => by simpa [Function.comp_def] using congrArg (List.map Prod.fst) (h.map_allGroups hu)
  case frames_node =>
    intro e he d hd hde c hc ho
    have ⟨n, hn, hid, hb⟩ := h.exists_node hc
    rw [h.bounds_of_group hu hd hde, hb]
    exact frames he (hs.nodeBounds_mem_inside hn (hid ▸ ho))
  case frames_child =>
    intro e he d hd hde f hf hp c hc hcf
    rw [h.bounds_of_group hu hd hde, h.bounds_of_group hu hc hcf]
    exact frames he (hs.groupBounds_mem_inside he hf hp)
  case groups_apart =>
    intro e he d hd hde f hf hef hfe c hc hcf
    rw [h.bounds_of_group hu hd hde, h.bounds_of_group hu hc hcf, Bounds.apart_shift_iff]
    exact hs.groupBounds_apart he hf hef hfe
  case node_apart =>
    intro e he d hd hde c hc ho
    have ⟨n, hn, hid, hb⟩ := h.exists_node hc
    rw [hid] at ho
    rw [h.bounds_of_group hu hd hde, hb, Bounds.apart_shift_iff]
    exact (hs.groupBounds_apart_room he (hs.itemOf_mem hn) ho).of_within (.refl _) (hs.nodeBounds_within_room hn)

end Drawn

namespace SizedGraph

theorem layout_drawsGroups {sweeps : Nat} (h : g.layout sweeps = .ok p) (hm : Measured g.nodes g.edges g.spacing)
    (hu : g.uniformBands = false) : DrawsGroups g p := by
  rcases exists_drawn_of_layout h hm with ⟨hn, rfl⟩ | ⟨place, s, dx, dy, hs, hd⟩
  · constructor <;> simp [hn, PlacedGraph.allGroups, PlacedGroup.walkAll]
  · exact hd.drawsGroups hs hu

theorem layout_drawsGroups_nestedGroups : ∃ p, Arrangement.nestedGroups.layout 4 = .ok p ∧
    Measured Arrangement.nestedGroups.nodes Arrangement.nestedGroups.edges Arrangement.nestedGroups.spacing ∧
    Arrangement.nestedGroups.uniformBands = false ∧ DrawsGroups Arrangement.nestedGroups p := by
  have ⟨p, hp⟩ := Arrangement.exists_layout_nestedGroups
  exact ⟨p, hp, Arrangement.measured_nestedGroups, rfl, layout_drawsGroups hp Arrangement.measured_nestedGroups rfl⟩

end SizedGraph

end LayeredDiagram
