import LayeredDiagram.Proofs.Blocks
import LayeredDiagram.Proofs.Chains
/-!
The items of a well formed graph. No two of them share a slot, all of them stand in places of the forest,
and every group has items on all ranks between its first and its last one.
-/

namespace LayeredDiagram

deriving instance DecidableEq for Item, Chain, Loop, Group.Entry, Stock, Segment

end LayeredDiagram

namespace LayeredDiagram.Stock

variable {α : Type} [Scalar α] {nodes : List (SizedNode α)} {edges : List (SizedEdge α)}
variable {spacing : Spacing α} {entries todo : List Group.Entry} {items : List (Item α)} {i : Item α}
variable {e f : Group.Entry} {g : String}

-- The stock of a graph.
abbrev ofNodes (nodes : List (SizedNode α)) (edges : List (SizedEdge α)) (spacing : Spacing α)
    (entries : List Group.Entry) : Stock α :=
  ofGraph nodes edges spacing entries (orientedOf nodes edges) (ranksOf nodes edges)

-- Nodes and bends.
abbrev content (nodes : List (SizedNode α)) (edges : List (SizedEdge α)) (spacing : Spacing α)
    (entries : List Group.Entry) : List (Item α) :=
  nodeItemsOf nodes edges spacing entries ++ (chainsOf nodes edges spacing entries).flatMap Chain.inner

-- Nodes, bends and placeholders.
abbrev contentAndPlaceholders (nodes : List (SizedNode α)) (edges : List (SizedEdge α))
    (spacing : Spacing α) (entries : List Group.Entry) : List (Item α) :=
  content nodes edges spacing entries ++
    entries.reverse.filterMap (placeholder? spacing (content nodes edges spacing entries))

theorem items_eq : (ofNodes nodes edges spacing entries).items =
    fill (contentAndPlaceholders nodes edges spacing entries) entries :=
  rfl

section Fillers

-- The filler of a group on a rank.
def filler (e : Group.Entry) (r : Nat) : Item α :=
  ⟨.filler e.id r, r, 0, 0, .filler, e.path, 0⟩

-- Adds the fillers of some groups in turn.
def fillAll (items : List (Item α)) (todo : List Group.Entry) : List (Item α) :=
  todo.foldl (fun items e => items ++ fillers items e) items

theorem exists_fillers_eq (items : List (Item α)) (e : Group.Entry) : ∃ rs : List Nat,
    fillers items e = rs.map (filler e) ∧ rs.Nodup ∧ ∀ r, r ∈ rs ↔ r ∉ Item.ranksOf items e.id ∧
      ∃ a ∈ Item.ranksOf items e.id, ∃ b ∈ Item.ranksOf items e.id, a ≤ r ∧ r ≤ b := by
  simp only [fillers]
  split
  case h_1 first last hf hl =>
    have ⟨hf, hmin⟩ := List.min?_eq_some_iff.mp hf
    have ⟨hl, hmax⟩ := List.max?_eq_some_iff.mp hl
    refine ⟨_, rfl, (List.nodup_range.map fun _ _ h => by omega).filter _, fun r => ?_⟩
    simp only [List.mem_filter, List.mem_map, List.mem_range, Bool.not_eq_true', List.contains_eq_mem,
      decide_eq_false_iff_not]
    constructor
    · intro ⟨⟨k, hk, hr⟩, hn⟩
      exact ⟨hn, first, hf, last, hl, by omega, by omega⟩
    · intro ⟨hn, a, ha, b, hb, har, hrb⟩
      have := hmin a ha
      have := hmax b hb
      exact ⟨⟨r - first, by omega, by omega⟩, hn⟩
  case h_2 h =>
    refine ⟨[], rfl, List.nodup_nil, fun r => ?_⟩
    have hn : Item.ranksOf items e.id = [] := by
      by_contra hn
      have ⟨_, hf⟩ := Option.isSome_iff_exists.mp (List.isSome_min?_of_ne_nil hn)
      have ⟨_, hl⟩ := Option.isSome_iff_exists.mp (List.isSome_max?_of_ne_nil hn)
      exact h _ _ hf hl
    simp [hn]

omit [Scalar α] in
theorem mem_ranksOf_iff {r : Nat} :
    r ∈ Item.ranksOf items g ↔ ∃ i ∈ items, g ∈ i.path ∧ i.rank = r := by
  simp [Item.ranksOf, and_assoc]

omit [Scalar α] in
theorem ranksOf_append (items₁ items₂ : List (Item α)) (g : String) :
    Item.ranksOf (items₁ ++ items₂) g = Item.ranksOf items₁ g ++ Item.ranksOf items₂ g := by
  simp [Item.ranksOf]

-- No rank between two ranks is missing.
def Gapless (ranks : List Nat) : Prop :=
  ∀ a ∈ ranks, ∀ c ∈ ranks, ∀ b, a ≤ b → b ≤ c → b ∈ ranks

theorem gapless_append_fillers (h : e.id ∈ e.path) :
    Gapless (Item.ranksOf (items ++ fillers items e) e.id) := by
  have ⟨rs, he, _, hr⟩ := exists_fillers_eq items e
  have hrs : Item.ranksOf (fillers items e) e.id = rs := by
    simp [he, Item.ranksOf, List.filter_map, Function.comp_def, filler, h]
  rw [ranksOf_append, hrs]
  intro a ha c hc b hab hbc
  simp only [List.mem_append, hr] at ha hc ⊢
  grind

-- Fillers of groups that are not inside a group leave its ranks alone.
theorem ranksOf_append_fillers (h : g ∉ e.path) :
    Item.ranksOf (items ++ fillers items e) g = Item.ranksOf items g := by
  have ⟨rs, he, _, _⟩ := exists_fillers_eq items e
  rw [ranksOf_append, he]
  simp [Item.ranksOf, List.filter_map, Function.comp_def, filler, h]

theorem ranksOf_fillAll (h : ∀ f ∈ todo, g ∉ f.path) :
    Item.ranksOf (fillAll items todo) g = Item.ranksOf items g := by
  induction todo generalizing items
  case nil => rfl
  case cons f todo hi =>
    refine (hi fun f hf => h f (by simp [hf])).trans ?_
    exact ranksOf_append_fillers (h f (by simp))

-- Once the gaps of a group are filled, only groups around it are filled.
theorem gapless_fillAll (ho : todo.Pairwise fun e f => e.id ∉ f.path) (he : e ∈ todo) (hp : e.id ∈ e.path) :
    Gapless (Item.ranksOf (fillAll items todo) e.id) := by
  induction todo generalizing items
  case nil => simp at he
  case cons f todo hi =>
    have ⟨hf, ho⟩ := List.pairwise_cons.mp ho
    cases List.mem_cons.mp he
    case inl he =>
      subst he
      have hr : Item.ranksOf (fillAll items (e :: todo)) e.id = Item.ranksOf (items ++ fillers items e) e.id :=
        ranksOf_fillAll hf
      exact hr ▸ gapless_append_fillers hp
    case inr he => exact hi ho he

-- Fillers of a group stand between its items. These are in the groups around it as well, so that no item of a group
-- is out of any range that its first items keep.
theorem forall_fillAll {P : Nat → Prop} {Q : List String → Prop} (hP : ∀ a b r, P a → P b → a ≤ r → r ≤ b → P r)
    (ht : ∀ f ∈ todo, Q f.path ∧ (g ∈ f.path → ∀ p, Q p → f.id ∈ p → g ∈ p))
    (h : ∀ i ∈ items, Q i.path ∧ (g ∈ i.path → P i.rank)) : ∀ i ∈ fillAll items todo, g ∈ i.path → P i.rank := by
  induction todo generalizing items
  case nil => exact fun i hi => (h i hi).right
  case cons f todo hi =>
    have ⟨⟨hQ, hf⟩, ht⟩ := List.forall_mem_cons.mp ht
    refine hi ht fun i (hm : i ∈ items ++ fillers items f) => ?_
    cases List.mem_append.mp hm
    case inl hm => exact h i hm
    case inr hm =>
      have ⟨rs, he, _, hr⟩ := exists_fillers_eq items f
      obtain ⟨r, hrm, rfl⟩ := List.mem_map.mp (he ▸ hm)
      refine ⟨hQ, fun hg => ?_⟩
      have range {a : Nat} (ha : a ∈ Item.ranksOf items f.id) : P a := by
        obtain ⟨j, hj, hjf, rfl⟩ := mem_ranksOf_iff.mp ha
        have ⟨hQj, hPj⟩ := h j hj
        exact hPj (hf hg j.path hQj hjf)
      have ⟨_, a, ha, b, hb, har, hrb⟩ := (hr r).mp hrm
      exact hP a b r (range ha) (range hb) har hrb

theorem exists_fillAll_eq (items : List (Item α)) (todo : List Group.Entry) :
    ∃ added, fillAll items todo = items ++ added ∧ ∀ i ∈ added, ∃ e ∈ todo, ∃ r, i = filler e r := by
  induction todo generalizing items
  case nil => exact ⟨[], by simp [fillAll], by simp⟩
  case cons e todo hi =>
    have ⟨added, ha, hm⟩ := hi (items ++ fillers items e)
    have ⟨rs, he, _, _⟩ := exists_fillers_eq items e
    refine ⟨fillers items e ++ added, by simpa [fillAll] using ha, fun i h => ?_⟩
    cases List.mem_append.mp h
    case inl h =>
      have ⟨r, _, h⟩ := List.mem_map.mp (he ▸ h)
      exact ⟨e, by simp, r, h.symm⟩
    case inr h =>
      have ⟨f, hf, h⟩ := hm i h
      exact ⟨f, by simp [hf], h⟩

theorem fillAll_slot_nodup (hn : (items.map (·.slot)).Nodup) (ht : (todo.map (·.id)).Nodup)
    (hs : ∀ i ∈ items, ∀ e ∈ todo, ∀ r, i.slot ≠ .filler e.id r) :
    ((fillAll items todo).map (·.slot)).Nodup := by
  induction todo generalizing items
  case nil => exact hn
  case cons e todo hi =>
    have ⟨rs, he, hrs, _⟩ := exists_fillers_eq items e
    have ⟨het, ht⟩ := List.nodup_cons.mp ht
    have hslot : (fillers items e).map (·.slot) = rs.map (Slot.filler e.id) := by
      simp [he, Function.comp_def, filler]
    refine hi ?nodup ht ?slots
    case nodup =>
      rw [List.map_append, hslot]
      refine hn.append (hrs.map fun _ _ h => by simpa using h) fun s h₁ h₂ => ?_
      have ⟨i, hi, hs₁⟩ := List.mem_map.mp h₁
      have ⟨r, _, hs₂⟩ := List.mem_map.mp h₂
      exact hs i hi e (by simp) r (hs₁.trans hs₂.symm)
    case slots =>
      intro i hi f hf r hr
      cases List.mem_append.mp hi
      case inl hi => exact hs i hi f (by simp [hf]) r hr
      case inr hi =>
        have ⟨k, _, hk⟩ := List.mem_map.mp (hslot ▸ List.mem_map_of_mem (f := fun i : Item α => i.slot) hi)
        simp only [hr, Slot.filler.injEq] at hk
        exact het (List.mem_map.mpr ⟨f, hf, hk.left.symm⟩)

end Fillers

section Content

theorem slot_of_mem_inner {c : Chain α} (hc : c ∈ chainsOf nodes edges spacing entries) (hi : i ∈ c.inner) :
    i.slot = .bend c.edge i.rank := by
  have ⟨o, _, _, e, upper, lower, h⟩ := Chain.exists_connects_of_mem hc
  rw [(Chain.bendAt_of_mem_bends (h.inner_eq ▸ hi)).slot, h.eq]

theorem bends_slot_nodup :
    (((chainsOf nodes edges spacing entries).flatMap Chain.inner).map (·.slot)).Nodup := by
  rw [List.map_flatMap, List.nodup_flatMap]
  constructor
  case left =>
    intro c hc
    have ⟨o, _, _, e, upper, lower, h⟩ := Chain.exists_connects_of_mem hc
    have hr : (c.inner.map (·.rank)).Nodup := by
      rw [h.inner_eq, Chain.map_rank_bends]
      exact List.nodup_range'
    have hs : c.inner.map (·.slot) = (c.inner.map (·.rank)).map (Slot.bend c.edge) := by
      rw [List.map_map]
      exact List.map_congr_left fun i hi => slot_of_mem_inner hc hi
    exact hs ▸ hr.map fun _ _ h => by simpa using h
  case right =>
    have hn := Chain.edge_nodup nodes edges spacing entries
    rw [List.nodup_iff_pairwise_ne, List.pairwise_map] at hn
    refine hn.imp_of_mem fun {c d} hc hd hcd s hsc hsd => hcd ?_
    have ⟨i, hi, hs⟩ := List.mem_map.mp hsc
    have ⟨j, hj, hs'⟩ := List.mem_map.mp hsd
    rw [slot_of_mem_inner hc hi] at hs
    rw [slot_of_mem_inner hd hj, ← hs] at hs'
    simp only [Slot.bend.injEq] at hs'
    exact hs'.left.symm

theorem content_slot_nodup (hw : WellFormed nodes edges entries) :
    ((content nodes edges spacing entries).map (·.slot)).Nodup := by
  have hn : (nodeItemsOf nodes edges spacing entries).map (·.slot) =
      (nodes.map (·.id)).map Slot.node := by
    simp [nodeItemsOf, nodeItems]
  rw [List.map_append]
  refine (hn ▸ hw.nodes_nodup.map fun _ _ h => by simpa using h).append bends_slot_nodup fun s h₁ h₂ => ?_
  obtain ⟨_, _, h₁⟩ := List.mem_map.mp (hn ▸ h₁)
  obtain ⟨i, hi, h₂⟩ := List.mem_map.mp h₂
  obtain ⟨c, hc, hi⟩ := List.mem_flatMap.mp hi
  rw [slot_of_mem_inner hc hi, ← h₁] at h₂
  cases h₂

theorem placeholder?_eq_some {content : List (Item α)} (h : placeholder? spacing content e = some i) :
    e.children = [] ∧ Item.ranksOf content e.id = [] ∧ i =
      ⟨.placeholder e.id, emptyRank content e,
        Scalar.larger 0 (spacing.emptyGroupWidth - 2 * spacing.groupPadding),
        Scalar.larger 0 (spacing.emptyGroupHeight - 2 * spacing.groupPadding - spacing.groupHeader),
        .placeholder, e.path, 0⟩ := by
  unfold placeholder? at h
  split at h
  case isTrue hc =>
    simp only [Bool.and_eq_true, List.isEmpty_iff] at hc
    exact ⟨hc.left, hc.right, (Option.some.inj h).symm⟩
  case isFalse => cases h

-- An item is a node, a bend, a placeholder or a filler.
theorem mem_items_cases (hi : i ∈ (ofNodes nodes edges spacing entries).items) :
    i ∈ nodeItemsOf nodes edges spacing entries ∨
    (∃ c ∈ chainsOf nodes edges spacing entries, i ∈ c.inner) ∨
    (∃ e ∈ entries, placeholder? spacing (content nodes edges spacing entries) e = some i) ∨
    ∃ e ∈ entries, ∃ r, i = filler e r := by
  have ⟨added, ha, hm⟩ := exists_fillAll_eq (contentAndPlaceholders nodes edges spacing entries) entries.reverse
  rw [items_eq] at hi
  change i ∈ fillAll _ _ at hi
  rw [ha, List.mem_append, List.mem_append, List.mem_append, List.mem_flatMap, List.mem_filterMap] at hi
  rcases hi with ((hi | hi) | hi) | hi
  · exact .inl hi
  · exact .inr (.inl hi)
  · have ⟨e, he, h⟩ := hi
    exact .inr (.inr (.inl ⟨e, List.mem_reverse.mp he, h⟩))
  · have ⟨e, he, h⟩ := hm i hi
    exact .inr (.inr (.inr ⟨e, List.mem_reverse.mp he, h⟩))

theorem contentAndPlaceholders_subset :
    contentAndPlaceholders nodes edges spacing entries ⊆ (ofNodes nodes edges spacing entries).items := by
  have ⟨added, ha, _⟩ := exists_fillAll_eq (contentAndPlaceholders nodes edges spacing entries) entries.reverse
  rw [items_eq]
  change _ ⊆ fillAll _ _
  rw [ha]
  exact List.subset_append_left ..

theorem content_subset :
    content nodes edges spacing entries ⊆ (ofNodes nodes edges spacing entries).items :=
  fun _ hi => contentAndPlaceholders_subset (List.mem_append_left _ hi)

theorem mem_items_of_mem_nodeItems (hi : i ∈ nodeItemsOf nodes edges spacing entries) :
    i ∈ (ofNodes nodes edges spacing entries).items :=
  content_subset (List.mem_append_left _ hi)

theorem mem_items_of_mem_chain {c : Chain α} (hc : c ∈ chainsOf nodes edges spacing entries)
    (hi : i ∈ c.items) : i ∈ (ofNodes nodes edges spacing entries).items := by
  have ⟨o, _, _, e, upper, lower, h⟩ := Chain.exists_connects_of_mem hc
  rcases h.mem_items_iff.mp hi with hi | hi | hi
  · exact mem_items_of_mem_nodeItems (hi ▸ h.upper_mem)
  · exact content_subset (List.mem_append_right _ (List.mem_flatMap.mpr ⟨c, hc, hi⟩))
  · exact mem_items_of_mem_nodeItems (hi ▸ h.lower_mem)

-- What the graph itself puts into layers is a node or a bend.
theorem slot_of_mem_content (hi : i ∈ content nodes edges spacing entries) :
    (∃ id, i.slot = .node id) ∨ ∃ edge rank, i.slot = .bend edge rank := by
  cases List.mem_append.mp hi
  case inl hi =>
    obtain ⟨n, _, h⟩ := mem_nodeItemsOf_iff.mp hi
    exact .inl ⟨n.id, by rw [h]⟩
  case inr hi =>
    obtain ⟨c, hc, hi⟩ := List.mem_flatMap.mp hi
    exact .inr ⟨c.edge, i.rank, slot_of_mem_inner hc hi⟩

-- No two items share a slot.
theorem items_slot_nodup (hw : WellFormed nodes edges entries) :
    ((ofNodes nodes edges spacing entries).items.map (·.slot)).Nodup := by
  refine fillAll_slot_nodup ?_ ?_ ?_
  · rw [List.map_append]
    refine (content_slot_nodup hw).append ?_ fun s h₁ h₂ => ?_
    · have hn : (entries.reverse.map fun e => Slot.placeholder e.id).Nodup := by
        rw [List.map_reverse, List.nodup_reverse]
        simpa [Function.comp_def] using hw.groups_nodup.map (f := Slot.placeholder) fun _ _ h => by simpa using h
      exact hn.sublist (Chain.map_filterMap_sublist (fun e i h => by rw [(placeholder?_eq_some h).right.right]) _)
    · obtain ⟨i, hi, h₁⟩ := List.mem_map.mp h₁
      obtain ⟨j, hj, h₂⟩ := List.mem_map.mp h₂
      obtain ⟨e, _, hj⟩ := List.mem_filterMap.mp hj
      rw [(placeholder?_eq_some hj).right.right, ← h₁] at h₂
      rcases slot_of_mem_content hi with ⟨_, h⟩ | ⟨_, _, h⟩ <;> cases h₂.trans h
  · rw [List.map_reverse, List.nodup_reverse]
    exact hw.groups_nodup
  · intro i hi f _ r hs
    cases List.mem_append.mp hi
    case inl hi => rcases slot_of_mem_content hi with ⟨_, h⟩ | ⟨_, _, h⟩ <;> cases hs.symm.trans h
    case inr hi =>
      obtain ⟨e, _, hi⟩ := List.mem_filterMap.mp hi
      simp [(placeholder?_eq_some hi).right.right] at hs

end Content

section Groups

open LayeredDiagram.Group

variable {groups : List Group}

-- All items stand in places of the forest.
theorem isPath_of_mem_items (hf : IsForest entries)
    (hi : i ∈ (ofNodes nodes edges spacing entries).items) : IsPath entries i.path := by
  have owner {i : Item α} (hi : i ∈ nodeItemsOf nodes edges spacing entries) : IsPath entries i.path := by
    have ⟨n, _, h⟩ := mem_nodeItemsOf_iff.mp hi
    exact h ▸ isPath_ownerPath entries n.id
  rcases mem_items_cases hi with hi | ⟨c, hc, hi⟩ | ⟨e, he, hi⟩ | ⟨e, he, r, hi⟩
  · exact owner hi
  · have ⟨o, _, _, e, upper, lower, h⟩ := Chain.exists_connects_of_mem hc
    rw [(Chain.bendAt_of_mem_bends (h.inner_eq ▸ hi)).path]
    exact hf.isPath_of_prefix (owner h.upper_mem) (Chain.commonPath_prefix_left ..)
  · rw [(placeholder?_eq_some hi).right.right]
    exact IsForest.isPath_path he
  · exact hi ▸ IsForest.isPath_path he

-- A group without content and children has a placeholder.
theorem exists_placeholder (he : e ∈ entries) (hn : e.children = [])
    (hc : Item.ranksOf (content nodes edges spacing entries) e.id = []) :
    ∃ i ∈ (ofNodes nodes edges spacing entries).items, i.slot = .placeholder e.id ∧ i.path = e.path := by
  have hp : ∃ i, placeholder? spacing (content nodes edges spacing entries) e = some i := by
    simp [placeholder?, hc, hn]
  have ⟨i, hi⟩ := hp
  refine ⟨i, contentAndPlaceholders_subset (List.mem_append_right _ ?_), ?_, ?_⟩
  · exact List.mem_filterMap.mpr ⟨e, List.mem_reverse.mpr he, hi⟩
  · rw [(placeholder?_eq_some hi).right.right]
  · rw [(placeholder?_eq_some hi).right.right]

-- By induction on the number of levels below a group.
theorem ranksOf_ne_nil (hf : IsForest entries) (he : e ∈ entries) :
    Item.ranksOf (ofNodes nodes edges spacing entries).items e.id ≠ [] := by
  have nonempty {g : String} {i : Item α} (hi : i ∈ (ofNodes nodes edges spacing entries).items)
      (hg : g ∈ i.path) : Item.ranksOf (ofNodes nodes edges spacing entries).items g ≠ [] :=
    List.ne_nil_of_mem (mem_ranksOf_iff.mpr ⟨i, hi, hg, rfl⟩)
  induction e, he using inner_induction
  case step e he hi =>
    by_cases hc : Item.ranksOf (content nodes edges spacing entries) e.id = []
    case neg =>
      have ⟨r, hr⟩ := List.exists_mem_of_ne_nil _ hc
      have ⟨i, hi, hg, _⟩ := mem_ranksOf_iff.mp hr
      exact nonempty (content_subset hi) hg
    case pos =>
      by_cases hn : e.children = []
      case pos =>
        have ⟨i, hi, _, hp⟩ := exists_placeholder he hn hc
        exact nonempty hi (hp ▸ hf.id_mem_path he)
      case neg =>
        have ⟨c, hc⟩ := List.exists_mem_of_ne_nil _ hn
        have ⟨f, hfm, hfi, hfp⟩ := hf.child e he c hc
        have ⟨r, hr⟩ := List.exists_mem_of_ne_nil _ (hi f hfm (hfi ▸ hfp))
        have ⟨i, hi, hg, _⟩ := mem_ranksOf_iff.mp hr
        refine nonempty hi ?_
        have hp := isPath_of_mem_items hf hi
        rw [hf.mem_iff_path_prefix hp he]
        exact (hfp ▸ List.prefix_append ..).trans ((hf.mem_iff_path_prefix hp hfm).mp hg)

theorem path_of_slot_placeholder (hf : IsForest entries) (he : e ∈ entries)
    (hi : i ∈ (ofNodes nodes edges spacing entries).items) (hs : i.slot = .placeholder e.id) : i.path = e.path := by
  rcases mem_items_cases hi with hi | ⟨c, hc, hi⟩ | ⟨k, hk, hi⟩ | ⟨k, _, r, hi⟩
  · have ⟨n, _, hn⟩ := mem_nodeItemsOf_iff.mp hi
    rw [hn] at hs
    cases hs
  · rw [slot_of_mem_inner hc hi] at hs
    cases hs
  · have hik := (placeholder?_eq_some hi).right.right
    rw [hik] at hs ⊢
    rw [hf.eq_of_id_eq hk he (Slot.placeholder.inj hs)]
  · rw [hi] at hs
    cases hs

-- A group with nodes or bends has a node.
theorem exists_node_of_mem_content (hi : i ∈ content nodes edges spacing entries) (hg : g ∈ i.path) :
    ∃ n ∈ nodes, g ∈ Group.ownerPath entries n.id := by
  have node {i : Item α} (hi : i ∈ nodeItemsOf nodes edges spacing entries) (hg : g ∈ i.path) :
      ∃ n ∈ nodes, g ∈ Group.ownerPath entries n.id := by
    obtain ⟨n, hn, rfl⟩ := mem_nodeItemsOf_iff.mp hi
    exact ⟨n, hn, hg⟩
  cases List.mem_append.mp hi
  case inl hi => exact node hi hg
  case inr hi =>
    have ⟨c, hc, hi⟩ := List.mem_flatMap.mp hi
    have ⟨o, _, _, e, upper, lower, h⟩ := Chain.exists_connects_of_mem hc
    rw [(Chain.bendAt_of_mem_bends (h.inner_eq ▸ hi)).path] at hg
    exact node h.upper_mem ((Chain.commonPath_prefix_left ..).subset hg)

-- A group without children owns all nodes inside it.
theorem exists_owned (hf : IsForest entries) (he : e ∈ entries) (hc : e.children = [])
    (hr : Item.ranksOf (content nodes edges spacing entries) e.id ≠ []) :
    ∃ n ∈ nodes, owner? entries n.id = some e := by
  obtain ⟨r, hr⟩ := List.exists_mem_of_ne_nil _ hr
  obtain ⟨i, hi, hg, _⟩ := mem_ranksOf_iff.mp hr
  obtain ⟨n, hn, hg⟩ := exists_node_of_mem_content hi hg
  rw [hf.mem_iff_path_prefix (isPath_ownerPath _ n.id) he] at hg
  refine ⟨n, hn, ?_⟩
  cases ho : owner? entries n.id
  case none =>
    simp only [ownerPath, ho, List.prefix_nil] at hg
    exact absurd hg (hf.path_ne_nil he)
  case some f =>
    simp only [ownerPath, ho] at hg
    rw [hf.eq_of_path_prefix he (List.mem_of_find?_eq_some ho) hc hg]

theorem ranksOf_content_ne_nil (hf : IsForest entries) (he : e ∈ entries) {n : SizedNode α} (hn : n ∈ nodes)
    (ho : owner? entries n.id = some e) : Item.ranksOf (content nodes edges spacing entries) e.id ≠ [] := by
  have hg : e.id ∈ ownerPath entries n.id := by simpa only [ownerPath, ho] using hf.id_mem_path he
  exact List.ne_nil_of_mem
    (mem_ranksOf_iff.mpr ⟨_, List.mem_append_left _ (mem_nodeItemsOf_iff.mpr ⟨n, hn, rfl⟩), hg, rfl⟩)

theorem exists_placeholder?_of_slot (hi : i ∈ (ofNodes nodes edges spacing entries).items)
    (hs : i.slot = .placeholder g) : ∃ e ∈ entries, e.id = g ∧
      placeholder? spacing (content nodes edges spacing entries) e = some i := by
  rcases mem_items_cases hi with hi | ⟨c, hc, hi⟩ | ⟨e, he, hi⟩ | ⟨e, _, r, hi⟩
  · obtain ⟨n, _, rfl⟩ := mem_nodeItemsOf_iff.mp hi
    cases hs
  · cases (slot_of_mem_inner hc hi).symm.trans hs
  · rw [(placeholder?_eq_some hi).right.right] at hs
    exact ⟨e, he, Slot.placeholder.inj hs, hi⟩
  · rw [hi] at hs
    cases hs

-- A childless group without nodes has a placeholder, and no other group has one.
theorem exists_placeholder_iff (hf : IsForest entries) :
    (∃ i ∈ (ofNodes nodes edges spacing entries).items, i.slot = .placeholder g) ↔
      ∃ e ∈ entries, e.id = g ∧ e.children = [] ∧ ∀ n ∈ nodes, owner? entries n.id ≠ some e := by
  constructor
  · rintro ⟨i, hi, hs⟩
    obtain ⟨e, he, hid, hi⟩ := exists_placeholder?_of_slot hi hs
    obtain ⟨hc, hr, _⟩ := placeholder?_eq_some hi
    exact ⟨e, he, hid, hc, fun n hn ho => ranksOf_content_ne_nil hf he hn ho hr⟩
  · rintro ⟨e, he, rfl, hc, hn⟩
    have hr : Item.ranksOf (content nodes edges spacing entries) e.id = [] := by
      by_contra hr
      have ⟨n, hnm, ho⟩ := exists_owned hf he hc hr
      exact hn n hnm ho
    have ⟨i, hi, hs, _⟩ := exists_placeholder he hc hr
    exact ⟨i, hi, hs⟩

-- No group leaves out a rank between its first and its last one.
theorem gapless (hf : IsForest entries) (he : e ∈ entries) :
    Gapless (Item.ranksOf (ofNodes nodes edges spacing entries).items e.id) := by
  refine gapless_fillAll (List.pairwise_reverse.mpr ?_) (List.mem_reverse.mpr he) (hf.id_mem_path he)
  refine hf.outer_first.imp_of_mem fun {f g} hfm hg h hm => h ?_
  exact (hf.mem_iff_path_prefix (IsForest.isPath_path hfm) hg).mp hm

end Groups

section Layers

omit [Scalar α] in
theorem getElem?_layers (s : Stock α) (r : Nat) : s.layers[r]?.getD [] = s.items.filter (·.rank == r) := by
  unfold layers
  by_cases hr : r < ((s.items.map (·.rank)).max?.map (· + 1)).getD 0
  case pos => simp [hr]
  case neg =>
    rw [List.getElem?_eq_none (by simpa using hr), Option.getD_none, eq_comm, List.filter_eq_nil_iff]
    intro i hi hir
    have hm := List.mem_map_of_mem (f := (·.rank)) hi
    have ⟨m, hm'⟩ := Option.isSome_iff_exists.mp (List.isSome_max?_of_ne_nil (List.ne_nil_of_mem hm))
    have := (List.max?_eq_some_iff.mp hm').right _ hm
    simp only [hm', Option.map_some, Option.getD_some] at hr
    simp only [beq_iff_eq] at hir
    omega

-- A segment joins items of neighbouring ranks.
theorem ends_of_mem_segments (hw : WellFormed nodes edges entries) {s : Segment α}
    (hs : s ∈ (ofNodes nodes edges spacing entries).segments) :
    s.upper ∈ (ofNodes nodes edges spacing entries).items ∧
    s.lower ∈ (ofNodes nodes edges spacing entries).items ∧ s.lower.rank = s.upper.rank + 1 := by
  have ⟨c, hc, hs⟩ := List.mem_flatMap.mp hs
  simp only [Chain.segments, List.mem_map, Prod.exists] at hs
  obtain ⟨i, j, hij, rfl⟩ := hs
  have ⟨o, ho, _, e, upper, lower, h⟩ := Chain.exists_connects_of_mem hc
  have ⟨l₁, l₂, he⟩ := mem_zip_tail_iff.mp hij
  have hr := hw.rank_lt ho
  rw [← rank_of_mem_nodeItemsOf h.upper_mem h.upper_slot, ← rank_of_mem_nodeItemsOf h.lower_mem h.lower_slot] at hr
  refine ⟨mem_items_of_mem_chain hc (he ▸ by simp), mem_items_of_mem_chain hc (he ▸ by simp), ?_⟩
  exact List.isChain_iff_forall_rel_of_append_cons_cons.mp (h.isChain_rank hr) he

end Layers

end LayeredDiagram.Stock
