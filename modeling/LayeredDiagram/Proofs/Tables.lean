import LayeredDiagram.Proofs.Items
import LayeredDiagram.Proofs.Loops
/-!
The tables of a layout. Centres of nodes and the room in empty groups are found under the slots of their items. Routes
are those of the chains and loops, so that every real edge has one, and labels have an anchor where room is kept for
them.
-/

namespace LayeredDiagram

variable {α : Type} [Scalar α] {nodes : List (SizedNode α)} {edges : List (SizedEdge α)} {spacing : Spacing α}
variable {entries : List Group.Entry} {n : SizedNode α} {e : SizedEdge α} {i : Item α} {c : Chain α} {l : Loop α}
variable {s : Solution α} {center : Point α} {v g : String} {k : Nat}

-- Keys of a table that is made from items with different slots.
omit [Scalar α] in
theorem nodup_keys_of_slot {β : Type} {items : List (Item α)} {f : Item α → Option (String × β)}
    (slot : String → Slot) (hf : ∀ i y, f i = some y → slot y.1 = i.slot) (hn : (items.map (·.slot)).Nodup) :
    ((items.filterMap f).map (·.1)).Nodup := by
  refine List.Nodup.of_map slot ?_
  rw [List.map_map]
  exact hn.sublist (Chain.map_filterMap_sublist hf items)

-- Keys of a table that is made from some of the elements of a list.
omit [Scalar α] in
theorem map_fst_filterMap {β γ κ : Type} {l : List β} {f : β → Option (κ × γ)} (key : β → κ)
    (p : κ → Bool) (hf : ∀ x ∈ l, (f x).map (·.1) = if p (key x) then some (key x) else none) :
    (l.filterMap f).map (·.1) = (l.map key).filter p := by
  induction l
  case nil => rfl
  case cons x l hi =>
    have ⟨hx, hl⟩ := List.forall_mem_cons.mp hf
    rw [List.filterMap_cons, List.map_cons, List.filter_cons, ← hi hl]
    cases hfx : f x <;> grind

namespace Solution

section Items

theorem nodup_keys_nodeCenters (hn : (s.stock.items.map (·.slot)).Nodup) : (s.nodeCenters.map (·.1)).Nodup := by
  refine nodup_keys_of_slot Slot.node (fun i y h => ?_) hn
  split at h
  case h_1 id hi => rw [← Option.some.inj h, hi]
  case h_2 => cases h

theorem lookup_nodeCenters_of_slot (hn : (s.stock.items.map (·.slot)).Nodup) (hi : i ∈ s.stock.items)
    (hs : i.slot = .node v) : s.nodeCenters.lookup v = some (s.center i) :=
  lookup_of_mem (nodup_keys_nodeCenters hn) (List.mem_filterMap.mpr ⟨i, hi, by rw [hs]⟩)

theorem nodup_keys_placeholders (hn : (s.stock.items.map (·.slot)).Nodup) : (s.placeholders.map (·.1)).Nodup := by
  refine nodup_keys_of_slot Slot.placeholder (fun i y h => ?_) hn
  split at h
  case h_1 g hi => rw [← Option.some.inj h, hi]
  case h_2 => cases h

theorem lookup_placeholders_of_slot (hn : (s.stock.items.map (·.slot)).Nodup) (hi : i ∈ s.stock.items)
    (hs : i.slot = .placeholder g) : s.placeholders.lookup g = some (Box.around (s.center i) i.width i.height) :=
  lookup_of_mem (nodup_keys_placeholders hn) (List.mem_filterMap.mpr ⟨i, hi, by rw [hs]⟩)

theorem mem_keys_placeholders_iff :
    g ∈ s.placeholders.map (·.1) ↔ ∃ i ∈ s.stock.items, i.slot = .placeholder g := by
  simp only [placeholders, List.mem_map, List.mem_filterMap]
  constructor
  · rintro ⟨y, ⟨i, hi, h⟩, rfl⟩
    split at h
    case h_1 g hs => exact ⟨i, hi, Option.some.inj h ▸ hs⟩
    case h_2 => cases h
  · intro ⟨i, hi, hs⟩
    exact ⟨_, ⟨i, hi, by rw [hs]⟩, rfl⟩

end Items

section Edges

theorem loopData?_eq_some_iff : s.loopData? nodes edges l = some (n, center, e) ↔
    nodes.find? (·.id == l.node) = some n ∧ (∃ i, s.stock.items.find? (·.slot = .node l.node) = some i ∧
      center = s.center i) ∧ edges[l.edge]? = some e := by
  simp only [loopData?, Option.bind_eq_bind, Option.bind_eq_some_iff, Option.pure_def, Option.some.injEq,
    Prod.mk.injEq]
  grind

variable (hw : WellFormed nodes edges entries) (hs : s.stock = Stock.ofNodes nodes edges spacing entries)
include hw hs

-- The node and the edge of a loop are found.
theorem exists_loopData? (hl : l ∈ s.stock.loops) (he : edges[l.edge]? = some e) :
    ∃ n center, s.loopData? nodes edges l = some (n, center, e) := by
  rw [hs] at hl
  have ⟨_, _, hsource, _⟩ := Loop.edge_spec hl he
  obtain ⟨n, hn, hid⟩ := List.mem_map.mp (hw.ends_mem_of_getElem? he).left
  have hitem := Stock.mem_items_of_mem_nodeItems
    (mem_nodeItemsOf_iff.mpr ⟨n, hn, rfl⟩ : _ ∈ nodeItemsOf nodes edges spacing entries)
  have hnode : (nodes.find? (·.id == l.node)).isSome := List.find?_isSome.mpr ⟨n, hn, by simp [hid, hsource]⟩
  have hfound : (s.stock.items.find? (·.slot = .node l.node)).isSome :=
    List.find?_isSome.mpr ⟨_, hs ▸ hitem, by simp [hid, hsource]⟩
  obtain ⟨m, hm⟩ := Option.isSome_iff_exists.mp hnode
  obtain ⟨i, hi⟩ := Option.isSome_iff_exists.mp hfound
  exact ⟨m, s.center i, loopData?_eq_some_iff.mpr ⟨hm, ⟨i, hi, rfl⟩, he⟩⟩

theorem map_fst_routes (reach : α) : (s.routes nodes edges reach).map (·.1) =
    (chainsOf nodes edges spacing entries).map (·.edge) ++ (Loop.all spacing edges).map (·.edge) := by
  have hchains : s.stock.chains = chainsOf nodes edges spacing entries := congrArg Stock.chains hs
  have hloops : s.stock.loops = Loop.all spacing edges := congrArg Stock.loops hs
  rw [routes, List.map_append, List.map_map, hchains, map_fst_filterMap Loop.edge fun _ => true, hloops,
    List.filter_true]
  · rfl
  · intro l hl
    have ⟨e, he, _⟩ := Loop.exists_edge_of_mem_all (hloops ▸ hl)
    have ⟨n, center, hd⟩ := exists_loopData? hw hs hl he
    rw [hd]
    rfl

-- A route for every real edge, and for no other edge.
theorem mem_keys_routes_iff (reach : α) :
    k ∈ (s.routes nodes edges reach).map (·.1) ↔ ∃ e, edges[k]? = some e ∧ e.kind = .real := by
  rw [map_fst_routes hw hs, List.mem_append, Chain.mem_map_edge_iff hw, Loop.mem_map_edge_all_iff]
  constructor
  · rintro (⟨e, he, hk, _⟩ | ⟨e, he, hk, _⟩)
    · exact ⟨e, he, hk⟩
    · exact ⟨e, he, hk⟩
  · intro ⟨e, he, hk⟩
    by_cases hn : e.source = e.target
    case pos => exact .inr ⟨e, he, hk, beq_iff_eq.mpr hn⟩
    case neg => exact .inl ⟨e, he, hk, hn⟩

theorem nodup_keys_routes (reach : α) : ((s.routes nodes edges reach).map (·.1)).Nodup := by
  rw [map_fst_routes hw hs]
  refine (Chain.edge_nodup ..).append (Loop.edge_nodup ..) fun k hc hl => ?_
  have ⟨e, he, _, hn⟩ := (Chain.mem_map_edge_iff hw).mp hc
  have ⟨e', he', _, hloop⟩ := Loop.mem_map_edge_all_iff.mp hl
  obtain rfl : e' = e := Option.some.inj (he'.symm.trans he)
  exact hn (beq_iff_eq.mp hloop)

-- Anchors are those of the routes of edges with a label.
theorem map_fst_labelAnchors (reach : α) : (s.labelAnchors nodes edges reach).map (·.1) =
    ((s.routes nodes edges reach).map (·.1)).filter fun k => edges[k]?.any (·.hasLabel) := by
  have hchains : s.stock.chains = chainsOf nodes edges spacing entries := congrArg Stock.chains hs
  have hloops : s.stock.loops = Loop.all spacing edges := congrArg Stock.loops hs
  rw [map_fst_routes hw hs, List.filter_append, labelAnchors, List.map_append, ← hchains, ← hloops]
  congr 1
  case e_a =>
    refine map_fst_filterMap Chain.edge _ fun c hc => ?_
    have ⟨e, he, _⟩ := (Chain.mem_map_edge_iff hw).mp (List.mem_map_of_mem (hchains ▸ hc))
    have hl : (c.items.find? (·.kind = .label)).isSome ↔ e.hasLabel := by
      rw [List.find?_isSome, ← Chain.exists_label_iff hw (hchains ▸ hc) he]
      simp
    cases hf : c.items.find? (·.kind = .label) <;> simp_all
  case e_a =>
    refine map_fst_filterMap Loop.edge _ fun l hl => ?_
    have ⟨e, he, _⟩ := Loop.exists_edge_of_mem_all (hloops ▸ hl)
    have ⟨n, center, hd⟩ := exists_loopData? hw hs hl he
    simp only [hd, he, Option.any_some]
    split <;> rfl

-- An anchor for every real edge with room for a label, and for no other edge.
theorem mem_keys_labelAnchors_iff (reach : α) :
    k ∈ (s.labelAnchors nodes edges reach).map (·.1) ↔ ∃ e, edges[k]? = some e ∧ e.kind = .real ∧ e.hasLabel := by
  rw [map_fst_labelAnchors hw hs, List.mem_filter, mem_keys_routes_iff hw hs]
  constructor
  · intro ⟨⟨e, he, hk⟩, hl⟩
    exact ⟨e, he, hk, by simpa [he] using hl⟩
  · intro ⟨e, he, hk, hl⟩
    exact ⟨⟨e, he, hk⟩, by simpa [he] using hl⟩

theorem isSome_lookup_labelAnchors_iff (reach : α) (he : edges[k]? = some e) (hk : e.kind = .real) :
    ((s.labelAnchors nodes edges reach).lookup k).isSome ↔ e.hasLabel := by
  have hmem : ((s.labelAnchors nodes edges reach).lookup k).isSome ↔
      k ∈ (s.labelAnchors nodes edges reach).map (·.1) := by
    simp [List.lookup_isSome_iff]
  rw [hmem, mem_keys_labelAnchors_iff hw hs]
  simp [he, hk]

theorem nodup_keys_labelAnchors (reach : α) : ((s.labelAnchors nodes edges reach).map (·.1)).Nodup := by
  rw [map_fst_labelAnchors hw hs]
  exact (nodup_keys_routes hw hs reach).filter _

end Edges

end Solution

end LayeredDiagram
