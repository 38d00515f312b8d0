import LayeredDiagram.Proofs.Enclosure
/-!
Groups side by side without groups inside them. All of their items stand between their nodes, so that a group is
drawn above another one if all of its nodes are on ranks above those of the other. Stretching groups to a common
width leaves their heights alone.
-/

namespace LayeredDiagram

open LayeredDiagram.Group

variable {α : Type} [Scalar α] {nodes : List (SizedNode α)} {edges : List (SizedEdge α)} {spacing : Spacing α}
variable {entries : List Entry} {e f : Entry} {groups : List Group}

-- The entry of a group without groups inside it.
def Group.flatEntry (g : Group) : Entry :=
  ⟨g.id, g.label, g.members, [], [g.id]⟩

theorem Group.forest_of_flat (h : ∀ g ∈ groups, g.children = []) : forest [] groups = groups.map flatEntry := by
  induction groups
  case nil => rfl
  case cons g gs hi =>
    have ⟨hg, hgs⟩ := List.forall_mem_cons.mp h
    obtain ⟨id, label, members, children, kind⟩ := g
    obtain rfl : children = [] := hg
    simp [forest_cons, entries, forest_nil, hi hgs, flatEntry]

namespace Stock

-- Nodes of a group are on ranks at most and at least as large.
def Around (nodes : List (SizedNode α)) (edges : List (SizedEdge α)) (entries : List Entry) (group : String)
    (r : Nat) : Prop :=
  (∃ n ∈ nodes, group ∈ ownerPath entries n.id ∧ (ranksOf nodes edges).rank n.id ≤ r) ∧
  ∃ n ∈ nodes, group ∈ ownerPath entries n.id ∧ r ≤ (ranksOf nodes edges).rank n.id

theorem around_of_mem_nodeItems {i : Item α} {group : String} (hi : i ∈ nodeItemsOf nodes edges spacing entries)
    (hg : group ∈ i.path) : Around nodes edges entries group i.rank := by
  obtain ⟨n, hn, rfl⟩ := mem_nodeItemsOf_iff.mp hi
  exact ⟨⟨n, hn, hg, le_rfl⟩, n, hn, hg, le_rfl⟩

-- A bend within a group belongs to an edge between two of its nodes.
theorem around_of_mem_inner {c : Chain α} {i : Item α} {group : String}
    (hc : c ∈ chainsOf nodes edges spacing entries) (hi : i ∈ c.inner) (hg : group ∈ i.path) :
    Around nodes edges entries group i.rank := by
  have ⟨o, _, _, e, upper, lower, h⟩ := Chain.exists_connects_of_mem hc
  have hb := Chain.bendAt_of_mem_bends (h.inner_eq ▸ hi)
  rw [hb.path] at hg
  have hu := around_of_mem_nodeItems h.upper_mem ((Chain.commonPath_prefix_left ..).subset hg)
  have hl := around_of_mem_nodeItems h.lower_mem ((Chain.commonPath_prefix_right ..).subset hg)
  obtain ⟨⟨n, hn, hgn, hr⟩, _⟩ := hu
  obtain ⟨_, m, hm, hgm, hr'⟩ := hl
  exact ⟨⟨n, hn, hgn, hr.trans hb.upper_lt.le⟩, m, hm, hgm, hb.lt_lower.le.trans hr'⟩

-- If a group has a node, then all of its items stand between its nodes.
theorem around_of_mem_items (hflat : ∀ e ∈ entries, e.path = [e.id])
    (hn : ∃ n ∈ nodes, e.id ∈ ownerPath entries n.id) :
    ∀ i ∈ (ofNodes nodes edges spacing entries).items, e.id ∈ i.path → Around nodes edges entries e.id i.rank := by
  rw [items_eq]
  refine forall_fillAll (P := Around nodes edges entries e.id) (Q := fun _ => True) ?hP ?ht ?h
  case hP =>
    intro a b r ha hb har hrb
    obtain ⟨⟨n, hn, hgn, hr⟩, _⟩ := ha
    obtain ⟨_, m, hm, hgm, hr'⟩ := hb
    exact ⟨⟨n, hn, hgn, hr.trans har⟩, m, hm, hgm, hrb.trans hr'⟩
  case ht =>
    intro f hfm
    refine ⟨trivial, fun hg p _ hp => ?_⟩
    rw [hflat f (List.mem_reverse.mp hfm)] at hg
    exact List.mem_singleton.mp hg ▸ hp
  case h =>
    intro i hi
    refine ⟨trivial, fun hg => ?_⟩
    rcases List.mem_append.mp hi with hi | hi
    · rcases List.mem_append.mp hi with hi | hi
      · exact around_of_mem_nodeItems hi hg
      · have ⟨c, hc, hi⟩ := List.mem_flatMap.mp hi
        exact around_of_mem_inner hc hi hg
    · -- a group with a node has no placeholder
      have ⟨k, hk, hi⟩ := List.mem_filterMap.mp hi
      obtain ⟨_, hempty, rfl⟩ := placeholder?_eq_some hi
      have hkm := List.mem_reverse.mp hk
      simp only [hflat k hkm, List.mem_singleton] at hg
      obtain ⟨n, hnm, hgn⟩ := hn
      have hmem : (ranksOf nodes edges).rank n.id ∈ Item.ranksOf (content nodes edges spacing entries) k.id :=
        mem_ranksOf_iff.mpr ⟨_, List.mem_append_left _ (mem_nodeItemsOf_iff.mpr ⟨n, hnm, rfl⟩), hg ▸ hgn, rfl⟩
      rw [hempty] at hmem
      cases hmem

end Stock

variable {g : SizedGraph Rat} {place : String → Nat} {s : Solution Rat} {p : PlacedGraph Rat}

-- A group is above another one if its nodes are on ranks above those of the other.
theorem Stacked.groupBounds_above_of_nodes (hs : Stacked g place s)
    (hflat : ∀ e ∈ forest [] g.groups, e.path = [e.id]) (he : e ∈ forest [] g.groups) (hf : f ∈ forest [] g.groups)
    (hne : ∃ n ∈ g.nodes, e.id ∈ ownerPath (forest [] g.groups) n.id)
    (hnf : ∃ n ∈ g.nodes, f.id ∈ ownerPath (forest [] g.groups) n.id)
    (hr : ∀ n ∈ g.nodes, ∀ m ∈ g.nodes, e.id ∈ ownerPath (forest [] g.groups) n.id →
      f.id ∈ ownerPath (forest [] g.groups) m.id →
      (ranksOf g.nodes g.edges).rank n.id < (ranksOf g.nodes g.edges).rank m.id) :
    (g.groupBounds s e).bottom ≤ (g.groupBounds s f).top := by
  apply hs.groupBounds_above he hf
  obtain ⟨i, hi, hgi, hir⟩ := hs.arranged.exists_last he
  obtain ⟨j, hj, hgj, hjr⟩ := hs.arranged.exists_first hf
  rw [hs.stock_eq] at hi hj
  obtain ⟨_, n, hn, hgn, hin⟩ := Stock.around_of_mem_items hflat hne i hi hgi
  obtain ⟨⟨m, hm, hgm, hmj⟩, _⟩ := Stock.around_of_mem_items hflat hnf j hj hgj
  have := hr n hn m hm hgn hgm
  omega

-- Groups with something on the same rank are beside each other.
theorem Stacked.top_add_le_bottom {i j : Item Rat} (hs : Stacked g place s) (he : e ∈ forest [] g.groups)
    (hf : f ∈ forest [] g.groups) (hi : i ∈ s.stock.items) (hj : j ∈ s.stock.items)
    (hie : s.itemBounds i ∈ g.inside s e) (hjf : s.itemBounds j ∈ g.inside s f) (hr : i.rank = j.rank) :
    (g.groupBounds s f).top + (g.spacing.groupPadding + g.spacing.groupHeader) + g.spacing.groupPadding ≤
      (g.groupBounds s e).bottom := by
  have hbelow := (Content.frames_around (c := g.content s) hie).bottom
  have habove := (Content.frames_around (c := g.content s) hjf).top
  rw [← hs.groupBounds_eq he] at hbelow
  rw [← hs.groupBounds_eq hf] at habove
  have := hs.height_nonneg i hi
  have := hs.height_nonneg j hj
  simp only [SizedGraph.content, Solution.itemBounds, Bounds.ofBox, Box.around, Solution.center, hr] at hbelow habove
  linarith

namespace PlacedGroup

-- What is drawn of a group without regard to its width.
def upright (d : PlacedGroup Rat) : String × Option String × Rat × Rat :=
  (d.id, d.kind, d.y, d.bottom)

theorem ofGroups_eq (all : List (String × Bounds Rat)) (gs : List Group) : ofGroups all gs = gs.map (ofGroup all) := by
  induction gs
  case nil => simp [ofGroups]
  case cons g gs hi => simp [ofGroups, hi]

theorem shiftAll_eq (dx dy : Rat) (ds : List (PlacedGroup Rat)) : shiftAll dx dy ds = ds.map (shift dx dy) := by
  induction ds
  case nil => simp [shiftAll]
  case cons d ds hi => simp [shiftAll, hi]

theorem map_upright_stretch (ds : List (PlacedGroup Rat)) : (stretch ds).map upright = ds.map upright := by
  unfold stretch
  split
  case h_1 =>
    rw [List.map_map]
    rfl
  case h_2 => rfl

theorem upright_shift (dx dy : Rat) (d : PlacedGroup Rat) :
    (d.shift dx dy).upright = (d.id, d.kind, d.y + dy, d.bottom + dy) := by
  cases d
  simp only [shift, upright, bottom, Prod.mk.injEq, true_and]
  ring

theorem upright_ofGroup (all : List (String × Bounds Rat)) (g : Group) :
    (ofGroup all g).upright = (g.id, g.kind, (Content.found all g.id).top, (Content.found all g.id).bottom) := by
  cases g
  simp only [ofGroup, upright, bottom, Bounds.height, Content.found, add_sub_cancel]

end PlacedGroup

-- The outermost groups keep their heights whether or not they are stretched.
theorem Drawn.map_upright {dx dy : Rat} (h : Drawn g s dx dy p) : p.groups.map PlacedGroup.upright =
    g.groups.map fun gr => (gr.id, gr.kind, (Content.found (g.groupTable s) gr.id).top + dy,
      (Content.found (g.groupTable s) gr.id).bottom + dy) := by
  have hplace : (g.placeGroups (g.rawOf s)).map PlacedGroup.upright =
      (g.groups.map (PlacedGroup.ofGroup (g.groupTable s))).map PlacedGroup.upright := by
    rw [← PlacedGroup.ofGroups_eq]
    simp only [SizedGraph.placeGroups]
    split
    case isTrue => exact PlacedGroup.map_upright_stretch _
    case isFalse => rfl
  have hshift := congrArg (List.map fun u => (u.1, u.2.1, u.2.2.1 + dy, u.2.2.2 + dy)) hplace
  simp only [List.map_map, Function.comp_def, PlacedGroup.upright_ofGroup] at hshift
  rw [h.groups, PlacedGroup.shiftAll_eq, List.map_map, ← hshift]
  exact List.map_congr_left fun d _ => PlacedGroup.upright_shift dx dy d

end LayeredDiagram
