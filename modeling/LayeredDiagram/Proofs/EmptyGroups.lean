import LayeredDiagram.Proofs.Framing
/-!
Groups without content. Twice it is decided whether a group has any: room is kept in a group without groups inside it
if no item is in it, and a rectangle is put around the nodes that the group owns. Nodes that other groups own count
for neither, so that the room that is kept is all that the rectangle is put around, and the rectangle has the size of
an empty group.
-/

namespace LayeredDiagram

open LayeredDiagram.Group

variable {g : SizedGraph Rat} {s : Solution Rat} {p : PlacedGraph Rat} {entries : List Entry} {e : Entry}
variable {i : Item Rat} {d : PlacedGroup Rat} {ds : List (PlacedGroup Rat)}

-- A group without groups inside it that owns no node: whatever it lists belongs to another group.
structure Group.Entry.IsEmpty (entries : List Entry) (e : Entry) : Prop where
  children : e.children = []
  members : ∀ m ∈ e.members, owner? entries m ≠ some e

namespace Group.Entry.IsEmpty

theorem owner?_ne (h : e.IsEmpty entries) (m : String) : owner? entries m ≠ some e :=
  fun ho => h.members m (by simpa using List.find?_some ho) ho

theorem owns_eq_false (h : e.IsEmpty entries) (hf : IsForest entries) (he : e ∈ entries) {c : Content Rat}
    (hc : c.entries = entries) (m : String) : c.owns e.id m = false := by
  unfold Content.owns
  rw [hc]
  split
  case h_1 f ho =>
    rw [beq_eq_false_iff_ne]
    intro hid
    rw [hf.eq_of_id_eq (List.mem_of_find?_eq_some ho) he hid] at ho
    exact h.owner?_ne m ho
  case h_2 => rfl

end Group.Entry.IsEmpty

namespace Stock

variable {nodes : List (SizedNode Rat)} {edges : List (SizedEdge Rat)} {spacing : Spacing Rat}

-- The room that is kept leaves padding and header free in the size of an empty group.
theorem size_of_slot_placeholder {id : String} (hi : i ∈ (ofNodes nodes edges spacing entries).items)
    (hs : i.slot = .placeholder id) : i.width = max 0 (spacing.emptyGroupWidth - 2 * spacing.groupPadding) ∧
      i.height = max 0 (spacing.emptyGroupHeight - 2 * spacing.groupPadding - spacing.groupHeader) := by
  obtain ⟨e, _, _, hi⟩ := exists_placeholder?_of_slot hi hs
  rw [(placeholder?_eq_some hi).right.right]
  exact ⟨Scalar.larger_eq_max .., Scalar.larger_eq_max ..⟩

end Stock

section Rectangle

namespace Content

variable {c : Content Rat} (b : Bounds Rat)

theorem width_around_singleton : (c.around [b]).width = b.width + 2 * c.spacing.groupPadding := by
  simp only [around, Bounds.hull?, List.foldl_nil, frame, Bounds.width]
  ring

theorem height_around_singleton :
    (c.around [b]).height = b.height + 2 * c.spacing.groupPadding + c.spacing.groupHeader := by
  simp only [around, Bounds.hull?, List.foldl_nil, frame, Bounds.height]
  ring

end Content

theorem Solution.width_itemBounds (s : Solution Rat) (i : Item Rat) : (s.itemBounds i).width = i.width := by
  simp only [itemBounds, Bounds.ofBox, Box.around, Bounds.width]
  ring

theorem Solution.height_itemBounds (s : Solution Rat) (i : Item Rat) : (s.itemBounds i).height = i.height := by
  simp only [itemBounds, Bounds.ofBox, Box.around, Bounds.height]
  ring

theorem SizedGraph.inside_of_isEmpty (hf : IsForest (forest [] g.groups)) (hn : (s.stock.items.map (·.slot)).Nodup)
    (he : e ∈ forest [] g.groups) (h : e.IsEmpty (forest [] g.groups)) (hi : i ∈ s.stock.items)
    (hs : i.slot = .placeholder e.id) : g.inside s e = [s.itemBounds i] := by
  have howns : ∀ m, (g.content s).owns e.id m = false := h.owns_eq_false hf he rfl
  have hmembers : (g.content s).memberBounds e.id e.members = [] := by
    simp [Content.memberBounds, howns]
  have hroom : (g.content s).placeholders.lookup e.id = some (Box.around (s.center i) i.width i.height) :=
    Solution.lookup_placeholders_of_slot hn hi hs
  rw [inside, Content.inside, hmembers, h.children, hroom]
  rfl

end Rectangle

namespace PlacedGroup

-- Stretching changes the widths of the outermost groups only.
theorem exists_same_of_mem_stretch (hd : d ∈ walkAll (stretch ds)) :
    ∃ c ∈ walkAll ds, c.id = d.id ∧ c.height = d.height ∧ (d.id ∉ ds.map (·.id) → c.width = d.width) := by
  rcases mem_stretch_cases hd with hd | ⟨root, hroot, left, right, _, _, rfl⟩
  · exact ⟨d, hd, rfl, rfl, fun _ => rfl⟩
  · exact ⟨root, mem_walkAll_of_mem hroot, rfl, rfl, fun hid => absurd (List.mem_map_of_mem hroot) hid⟩

theorem size_shift (dx dy : Rat) (d : PlacedGroup Rat) :
    (d.shift dx dy).width = d.width ∧ (d.shift dx dy).height = d.height := by
  cases d
  simp [shift]

theorem width_bounds (d : PlacedGroup Rat) : d.bounds.width = d.width := by
  simp [bounds, right, Bounds.width]

theorem height_bounds (d : PlacedGroup Rat) : d.bounds.height = d.height := by
  simp [bounds, bottom, Bounds.height]

theorem map_id_ofGroups (all : List (String × Bounds Rat)) (gs : List Group) :
    (ofGroups all gs).map (·.id) = gs.map Group.id := by
  rw [ofGroups_eq, List.map_map]
  refine List.map_congr_left fun g _ => ?_
  cases g
  simp [ofGroup]

end PlacedGroup

namespace SizedGraph

-- The groups of a finished layout are where they are put, all moved by the same distance.
theorem exists_allGroups_eq (g : SizedGraph Rat) (raw : RawLayout Rat) : ∃ dx dy,
    (g.assemble raw).allGroups = (PlacedGroup.walkAll (g.placeGroups raw)).map (PlacedGroup.shift dx dy) :=
  ⟨_, _, PlacedGroup.walkAll_shiftAll _⟩

theorem map_id_allGroups (g : SizedGraph Rat) (raw : RawLayout Rat) :
    (g.assemble raw).allGroups.map (·.id) = (forest [] g.groups).map (·.id) := by
  obtain ⟨dx, dy, hall⟩ := g.exists_allGroups_eq raw
  rw [hall, List.map_map, ← g.map_id_placeGroups raw]
  exact List.map_congr_left fun d _ => PlacedGroup.id_shift d

-- A group has the size of its rectangle, but for the width of an outermost group that is stretched.
theorem size_of_mem_placeGroups (hf : IsForest (forest [] g.groups)) (he : e ∈ forest [] g.groups)
    (hd : d ∈ PlacedGroup.walkAll (g.placeGroups (g.rawOf s))) (hid : d.id = e.id) :
    d.height = (g.groupBounds s e).height ∧
      (g.uniformBands = false ∨ e.parent? ≠ none → d.width = (g.groupBounds s e).width) := by
  -- the group before it is stretched
  obtain ⟨c, hc, hci, hch, hcw⟩ : ∃ c ∈ PlacedGroup.walkAll (PlacedGroup.ofGroups (g.groupTable s) g.groups),
      c.id = d.id ∧ c.height = d.height ∧
        (g.uniformBands = false ∨ d.id ∉ g.groups.map Group.id → c.width = d.width) := by
    simp only [placeGroups] at hd
    split at hd
    case isTrue hu =>
      obtain ⟨c, hc, hci, hch, hcw⟩ := PlacedGroup.exists_same_of_mem_stretch hd
      refine ⟨c, hc, hci, hch, fun hout => hcw ?_⟩
      rw [PlacedGroup.map_id_ofGroups]
      exact hout.resolve_left (by simp [hu])
    case isFalse => exact ⟨d, hd, rfl, rfl, fun _ => rfl⟩
  have hm := List.mem_map_of_mem (f := fun d => (d.id, d.bounds)) hc
  rw [PlacedGroup.map_walkAll_ofGroups _ g.groups []] at hm
  obtain ⟨f, _, heq⟩ := List.mem_map.mp hm
  obtain ⟨hfi, hfb⟩ := Prod.mk.inj heq
  have hbounds : g.groupBounds s e = c.bounds := by
    rw [groupBounds, ← hid, ← hci, ← hfi]
    exact hfb
  rw [hbounds, PlacedGroup.height_bounds, PlacedGroup.width_bounds, hch]
  refine ⟨rfl, fun hout => (hcw (hout.imp_right fun hp hmem => hp ?_)).symm⟩
  obtain ⟨r, hr, hri, hrp⟩ := exists_root_entry [] hmem
  rw [← hf.eq_of_id_eq hr he (hri.trans hid), Entry.parent?, hrp]
  rfl

-- The room that is kept grows back by the padding and the header around it.
theorem size_groupBounds (hw : WellFormed g.nodes g.edges (forest [] g.groups)) (sweeps : Nat)
    (he : e ∈ forest [] g.groups) (h : e.IsEmpty (forest [] g.groups)) :
    (g.groupBounds (g.solution sweeps) e).height =
        max g.spacing.emptyGroupHeight (2 * g.spacing.groupPadding + g.spacing.groupHeader) ∧
      (g.groupBounds (g.solution sweeps) e).width = max g.spacing.emptyGroupWidth (2 * g.spacing.groupPadding) := by
  obtain ⟨place, hA⟩ := Arrangement.exists_arranged hw sweeps g.spacing
  have hf := hA.forest
  obtain ⟨i, hi, hs⟩ : ∃ i ∈ (g.solution sweeps).stock.items, i.slot = .placeholder e.id :=
    (Stock.exists_placeholder_iff hf).mpr ⟨e, he, rfl, h.children, fun n _ => h.owner?_ne n.id⟩
  obtain ⟨hwidth, hheight⟩ := Stock.size_of_slot_placeholder hi hs
  have hbounds : g.groupBounds (g.solution sweeps) e = (g.content (g.solution sweeps)).around
      [(g.solution sweeps).itemBounds i] := by
    rw [← inside_of_isEmpty hf hA.slot_nodup he h hi hs]
    exact Content.found_measureAll hw.groups_nodup he
  rw [hbounds, Content.height_around_singleton, Content.width_around_singleton, Solution.height_itemBounds,
    Solution.width_itemBounds, hwidth, hheight]
  simp only [content]
  grind

-- Empty groups at any depth, those that list only nodes of other groups among them, have the size of an empty group,
-- or that of padding and header where this is more. A graph without nodes has an empty layout.
theorem layout_emptyGroups {sweeps : Nat} (h : g.layout sweeps = .ok p) :
    (g.nodes ≠ [] → p.allGroups.map (·.id) = (forest [] g.groups).map (·.id)) ∧
    ∀ e ∈ forest [] g.groups, e.IsEmpty (forest [] g.groups) → ∀ d ∈ p.allGroups, d.id = e.id →
      d.height = max g.spacing.emptyGroupHeight (2 * g.spacing.groupPadding + g.spacing.groupHeader) ∧
      (g.uniformBands = false ∨ e.parent? ≠ none →
        d.width = max g.spacing.emptyGroupWidth (2 * g.spacing.groupPadding)) := by
  by_cases hnil : g.nodes = []
  case pos =>
    obtain rfl := layout_of_nil h hnil
    simp [hnil, PlacedGraph.allGroups, PlacedGroup.walkAll]
  case neg =>
    obtain ⟨hw, _, rfl⟩ := layout_eq h hnil
    refine ⟨fun _ => g.map_id_allGroups _, fun e he hempty d hd hid => ?_⟩
    obtain ⟨dx, dy, hall⟩ := g.exists_allGroups_eq (g.rawOf (g.solution sweeps))
    obtain ⟨c, hc, rfl⟩ := List.mem_map.mp (hall ▸ hd)
    obtain ⟨hwidth, hheight⟩ := c.size_shift dx dy
    rw [PlacedGroup.id_shift] at hid
    obtain ⟨place, hA⟩ := Arrangement.exists_arranged hw sweeps g.spacing
    obtain ⟨hch, hcw⟩ := size_of_mem_placeGroups hA.forest he hc hid
    obtain ⟨heh, hew⟩ := size_groupBounds hw sweeps he hempty
    rw [hwidth, hheight, hch, heh]
    exact ⟨rfl, fun hout => (hcw hout).trans hew⟩

-- A group that lists the node of the group around it, and one that lists nothing.
def listedTwice : SizedGraph Rat where
  nodes := [{ id := "a", width := 40, height := 20 }]
  edges := []
  groups := [{ id := "outer", members := ["a"], children := [{ id := "again", members := ["a"] }] }, { id := "bare" }]
  spacing := .standard
  margin := ⟨10, 10⟩
  uniformBands := true

theorem layout_emptyGroups_listedTwice : ∃ p, listedTwice.layout 4 = .ok p ∧
    p.allGroups.map (·.id) = ["outer", "again", "bare"] ∧
    (∀ d ∈ p.allGroups, d.id = "again" → d.height = 64 ∧ d.width = 120) ∧
    ∀ d ∈ p.allGroups, d.id = "bare" → d.height = 64 := by
  have hn : listedTwice.nodes ≠ [] := by simp [listedTwice]
  obtain ⟨p, hp⟩ := exists_layout rfl hn (Register.error?_eq_none_iff.mp (by decide)) 4
  obtain ⟨hids, hsizes⟩ := layout_emptyGroups hp
  have hforest : forest [] listedTwice.groups = [⟨"outer", some "", ["a"], ["again"], ["outer"]⟩,
      ⟨"again", some "", ["a"], [], ["outer", "again"]⟩, ⟨"bare", some "", [], [], ["bare"]⟩] := rfl
  have hagain : Entry.IsEmpty (forest [] listedTwice.groups) ⟨"again", some "", ["a"], [], ["outer", "again"]⟩ :=
    ⟨rfl, by simp [hforest, owner?]⟩
  have hbare : Entry.IsEmpty (forest [] listedTwice.groups) ⟨"bare", some "", [], [], ["bare"]⟩ :=
    ⟨rfl, by simp⟩
  have hheight : max listedTwice.spacing.emptyGroupHeight
      (2 * listedTwice.spacing.groupPadding + listedTwice.spacing.groupHeader) = 64 := by decide +kernel
  have hwidth : max listedTwice.spacing.emptyGroupWidth (2 * listedTwice.spacing.groupPadding) = 120 := by
    decide +kernel
  rw [hheight, hwidth] at hsizes
  refine ⟨p, hp, (hids hn).trans rfl, fun d hd hid => ?_, fun d hd hid => ?_⟩
  · obtain ⟨hh, hw⟩ := hsizes _ (by simp [hforest]) hagain d hd hid
    exact ⟨hh, hw (.inr (by simp [Entry.parent?]))⟩
  · exact (hsizes _ (by simp [hforest]) hbare d hd hid).left

end SizedGraph

end LayeredDiagram
