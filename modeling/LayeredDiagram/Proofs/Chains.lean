import LayeredDiagram.Layout.Raw
import LayeredDiagram.Proofs.Ranking
import LayeredDiagram.Proofs.WellFormed
import Mathlib.Data.List.Chain
/-!
The chains of a well formed graph. Every edge between different nodes has a chain with one item on each rank
from its upper to its lower end, and no two chains share a bend.
-/

namespace LayeredDiagram

variable {α : Type} [Scalar α] {nodes : List (SizedNode α)} {edges : List (SizedEdge α)}
variable {spacing : Spacing α} {entries : List Group.Entry} {i upper lower : Item α} {c : Chain α}

theorem mem_zip_tail_iff {β : Type} {l : List β} {a b : β} :
    (a, b) ∈ l.zip l.tail ↔ ∃ l₁ l₂, l = l₁ ++ a :: b :: l₂ := by
  induction l
  case nil => simp
  case cons x l hi =>
    cases l
    case nil => simp [List.singleton_eq_append_iff]
    case cons y l =>
      simp only [List.tail_cons, List.zip_cons_cons, List.mem_cons, Prod.mk.injEq] at hi ⊢
      constructor
      · rintro (⟨rfl, rfl⟩ | h)
        · exact ⟨[], l, rfl⟩
        · obtain ⟨l₁, l₂, h⟩ := hi.mp h
          exact ⟨x :: l₁, l₂, by simp [h]⟩
      · rintro ⟨l₁, l₂, h⟩
        cases l₁
        case nil => simp_all
        case cons z l₁ =>
          simp only [List.cons_append, List.cons.injEq] at h
          exact .inr (hi.mpr ⟨l₁, l₂, h.right⟩)

-- The oriented edges, the ranks and the items of a graph.
abbrev orientedOf (nodes : List (SizedNode α)) (edges : List (SizedEdge α)) : List (OrientedEdge String) :=
  OrientedEdge.all (nodes.map (·.id)) edges

abbrev ranksOf (nodes : List (SizedNode α)) (edges : List (SizedEdge α)) : Ranking String :=
  Ranking.ofEdges (nodes.map (·.id)) (orientedOf nodes edges)

abbrev nodeItemsOf (nodes : List (SizedNode α)) (edges : List (SizedEdge α)) (spacing : Spacing α)
    (entries : List Group.Entry) : List (Item α) :=
  Stock.nodeItems nodes entries (ranksOf nodes edges) (Loop.all spacing edges)

abbrev chainsOf (nodes : List (SizedNode α)) (edges : List (SizedEdge α)) (spacing : Spacing α)
    (entries : List Group.Entry) : List (Chain α) :=
  ((orientedOf nodes edges).filter (·.kind = .real)).filterMap
    (Chain.ofEdge? edges (nodeItemsOf nodes edges spacing entries))

namespace WellFormed

open OrientedEdge

omit [Scalar α] in
theorem ends_mem_of_getElem? (hw : WellFormed nodes edges entries) {e : SizedEdge α} {index : Nat}
    (he : edges[index]? = some e) : e.source ∈ nodes.map (·.id) ∧ e.target ∈ nodes.map (·.id) :=
  hw.ends_mem e (List.mem_of_getElem? he)

theorem isDag (hw : WellFormed nodes edges entries) :
    Ranking.IsDag (nodes.map (·.id)) (orientedOf nodes edges) := by
  have ends {o} (ho : o ∈ orientedOf nodes edges) :
      o.upper ∈ nodes.map (·.id) ∧ o.lower ∈ nodes.map (·.id) := by
    have ⟨e, he, hoe⟩ := exists_edge_of_mem_all ho
    have ⟨hs, ht⟩ := hw.ends_mem_of_getElem? he
    rcases hoe.ends with ⟨hu, hl, _⟩ | ⟨hu, hl, _⟩ <;> rw [hu, hl] <;> simp only [hs, ht, and_self]
  exact ⟨fun o ho => (ends ho).left, fun o ho => (ends ho).right, acyclic_all _ _⟩

theorem rank_lt (hw : WellFormed nodes edges entries) {o : OrientedEdge String}
    (ho : o ∈ orientedOf nodes edges) :
    (ranksOf nodes edges).rank o.upper < (ranksOf nodes edges).rank o.lower := by
  have ⟨_, _, hoe⟩ := exists_edge_of_mem_all ho
  have hl : 1 ≤ o.length := by
    rw [hoe.length, requiredLength]
    split <;> omega
  exact lt_of_lt_of_le (Nat.lt_add_of_pos_right hl) (Ranking.rank_add_length_le hw.isDag ho)

end WellFormed

section Nodes

theorem mem_nodeItemsOf_iff : i ∈ nodeItemsOf nodes edges spacing entries ↔ ∃ n ∈ nodes,
    i = ⟨.node n.id, (ranksOf nodes edges).rank n.id, n.width, n.height, .node,
      Group.ownerPath entries n.id, Loop.reach (Loop.all spacing edges) n.id⟩ := by
  simp [nodeItemsOf, Stock.nodeItems, eq_comm]

theorem exists_find?_nodeItemsOf (edges : List (SizedEdge α)) (spacing : Spacing α)
    (entries : List Group.Entry) {id : String} (h : id ∈ nodes.map (·.id)) :
    ∃ i, (nodeItemsOf nodes edges spacing entries).find? (·.slot = .node id) = some i ∧
      i ∈ nodeItemsOf nodes edges spacing entries ∧ i.slot = .node id := by
  have ⟨n, hn, hi⟩ := List.mem_map.mp h
  have hs : ((nodeItemsOf nodes edges spacing entries).find? (·.slot = .node id)).isSome := by
    rw [List.find?_isSome]
    exact ⟨_, mem_nodeItemsOf_iff.mpr ⟨n, hn, rfl⟩, by simp [hi]⟩
  have ⟨i, hi⟩ := Option.isSome_iff_exists.mp hs
  exact ⟨i, hi, List.mem_of_find?_eq_some hi, by simpa using List.find?_some hi⟩

theorem rank_of_mem_nodeItemsOf {id : String} (hi : i ∈ nodeItemsOf nodes edges spacing entries)
    (hs : i.slot = .node id) : i.rank = (ranksOf nodes edges).rank id := by
  have ⟨n, _, h⟩ := mem_nodeItemsOf_iff.mp hi
  subst h
  simp only [Slot.node.injEq] at hs
  simp [hs]

theorem kind_of_mem_nodeItemsOf (hi : i ∈ nodeItemsOf nodes edges spacing entries) : i.kind = .node := by
  have ⟨n, _, hn⟩ := mem_nodeItemsOf_iff.mp hi
  rw [hn]

end Nodes

namespace Chain

-- Two paths part where their common beginning ends.
theorem exists_eq_commonPath_append (p q : List String) : ∃ p' q', p = commonPath p q ++ p' ∧
    q = commonPath p q ++ q' ∧ ∀ g h, p'.head? = some g → q'.head? = some h → g ≠ h := by
  induction p generalizing q
  case nil => exact ⟨[], q, by simp [commonPath]⟩
  case cons a p hi =>
    cases q
    case nil => exact ⟨a :: p, [], by simp [commonPath]⟩
    case cons b q =>
      by_cases h : a = b
      case pos =>
        have ⟨p', q', hp, hq, hn⟩ := hi q
        rw [commonPath, if_pos h]
        exact ⟨p', q', by rw [List.cons_append, ← hp], by rw [List.cons_append, ← hq, h], hn⟩
      case neg =>
        rw [commonPath, if_neg h]
        refine ⟨a :: p, b :: q, rfl, rfl, ?_⟩
        simpa using h

theorem commonPath_prefix_left (p q : List String) : commonPath p q <+: p :=
  have ⟨p', _, hp, _⟩ := exists_eq_commonPath_append p q
  ⟨p', hp.symm⟩

theorem commonPath_prefix_right (p q : List String) : commonPath p q <+: q :=
  have ⟨_, q', _, hq, _⟩ := exists_eq_commonPath_append p q
  ⟨q', hq.symm⟩

-- The common beginning is the one at which paths part.
theorem commonPath_eq {p q r : List String} (hp : r <+: p) (hq : r <+: q)
    (hn : ∀ g, r ++ [g] <+: p → ¬r ++ [g] <+: q) : commonPath p q = r := by
  obtain ⟨p, rfl⟩ := hp
  obtain ⟨q, rfl⟩ := hq
  simp only [List.prefix_append_right_inj] at hn
  induction r
  case nil =>
    cases p <;> cases q
    case cons.cons g p h q =>
      have : g ≠ h := fun he => hn g ⟨p, rfl⟩ ⟨q, by rw [he]; rfl⟩
      simp [commonPath, this]
    all_goals rfl
  case cons g r hi =>
    simp only [List.cons_append, commonPath, if_true]
    rw [hi]

-- The chain of an oriented edge runs from the item of one end to that of the other.
structure Connects (nodeItems : List (Item α)) (edges : List (SizedEdge α)) (o : OrientedEdge String)
    (e : SizedEdge α) (upper lower : Item α) (c : Chain α) : Prop where
  edge_eq : edges[o.index]? = some e
  eq : c = ⟨o.index, e.weight, upper :: bends e o.index upper lower ++ [lower], o.isReversed⟩
  upper_mem : upper ∈ nodeItems
  lower_mem : lower ∈ nodeItems
  upper_slot : upper.slot = .node o.upper
  lower_slot : lower.slot = .node o.lower

theorem connects_of_ofEdge? {nodeItems : List (Item α)} {o : OrientedEdge String}
    (h : ofEdge? edges nodeItems o = some c) : ∃ e upper lower, Connects nodeItems edges o e upper lower c := by
  simp only [ofEdge?, Option.bind_eq_bind, Option.bind_eq_some_iff, Option.pure_def, Option.some.injEq] at h
  have ⟨e, he, upper, hu, lower, hl, hc⟩ := h
  exact ⟨e, upper, lower, he, hc.symm, List.mem_of_find?_eq_some hu, List.mem_of_find?_eq_some hl,
    by simpa using List.find?_some hu, by simpa using List.find?_some hl⟩

theorem exists_connects_of_mem (h : c ∈ chainsOf nodes edges spacing entries) :
    ∃ o ∈ orientedOf nodes edges, o.kind = .real ∧ ∃ e upper lower,
      Connects (nodeItemsOf nodes edges spacing entries) edges o e upper lower c := by
  have ⟨o, ho, hc⟩ := List.mem_filterMap.mp h
  have ⟨ho, hk⟩ := List.mem_filter.mp ho
  exact ⟨o, ho, by simpa using hk, connects_of_ofEdge? hc⟩

-- The chain of an edge connects the ends of this edge, in one of both directions.
theorem exists_orientation_of_mem (hc : c ∈ chainsOf nodes edges spacing entries) {e : SizedEdge α}
    (he : edges[c.edge]? = some e) : ∃ o ∈ orientedOf nodes edges, e.kind = .real ∧ OrientedEdge.OrientationOf e o ∧
      ∃ upper lower, Connects (nodeItemsOf nodes edges spacing entries) edges o e upper lower c := by
  have ⟨o, ho, hk, e₁, upper, lower, h⟩ := exists_connects_of_mem hc
  have hoe : o.index = c.edge := by rw [h.eq]
  obtain rfl : e₁ = e := Option.some.inj (h.edge_eq.symm.trans (hoe ▸ he))
  have hof := OrientedEdge.orientationOf_of_mem_all ho h.edge_eq
  exact ⟨o, ho, hof.kind ▸ hk, hof, upper, lower, h⟩

theorem exists_ofEdge?_eq_some (hw : WellFormed nodes edges entries) (spacing : Spacing α) {o : OrientedEdge String}
    (ho : o ∈ orientedOf nodes edges) : ∃ c, ofEdge? edges (nodeItemsOf nodes edges spacing entries) o = some c ∧
      c.edge = o.index ∧ c.isReversed = o.isReversed := by
  have ⟨e, he, _⟩ := OrientedEdge.exists_edge_of_mem_all ho
  have ⟨upper, hu, _⟩ := exists_find?_nodeItemsOf edges spacing entries (hw.isDag.upper_mem o ho)
  have ⟨lower, hl, _⟩ := exists_find?_nodeItemsOf edges spacing entries (hw.isDag.lower_mem o ho)
  exact ⟨⟨o.index, e.weight, upper :: bends e o.index upper lower ++ [lower], o.isReversed⟩,
    by simp only [ofEdge?, he, hu, hl, Option.bind_eq_bind, Option.bind_some, Option.pure_def], rfl, rfl⟩

-- No oriented edge is left without a chain.
theorem exists_mem_of_oriented (hw : WellFormed nodes edges entries) {o : OrientedEdge String}
    (ho : o ∈ orientedOf nodes edges) (hk : o.kind = .real) :
    ∃ c ∈ chainsOf nodes edges spacing entries, c.edge = o.index := by
  have ⟨c, hc, hindex, _⟩ := exists_ofEdge?_eq_some hw spacing ho
  exact ⟨c, List.mem_filterMap.mpr ⟨o, by simp [ho, hk], hc⟩, hindex⟩

-- A chain for every real edge between different nodes, and for no other edge.
theorem mem_map_edge_iff (hw : WellFormed nodes edges entries) {k : Nat} :
    k ∈ (chainsOf nodes edges spacing entries).map (·.edge) ↔
      ∃ e, edges[k]? = some e ∧ e.kind = .real ∧ e.source ≠ e.target := by
  constructor
  · intro hk
    have ⟨c, hc, hck⟩ := List.mem_map.mp hk
    have ⟨o, ho, hreal, _, _, _, h⟩ := exists_connects_of_mem hc
    have ⟨e, he, hof⟩ := OrientedEdge.exists_edge_of_mem_all ho
    have hok : o.index = k := by rw [← hck, h.eq]
    exact ⟨e, hok ▸ he, hof.kind ▸ hreal, hof.source_ne⟩
  · intro ⟨e, he, hreal, hn⟩
    obtain ⟨o, ho, rfl⟩ : ∃ o ∈ orientedOf nodes edges, o.index = k := OrientedEdge.exists_mem_all he hn
    have hof := OrientedEdge.orientationOf_of_mem_all ho he
    exact List.mem_map.mpr (exists_mem_of_oriented hw ho (hof.kind.trans hreal))

omit [Scalar α] in
theorem map_filterMap_sublist {β γ κ : Type} {f : β → Option γ} {g : γ → κ} {h : β → κ}
    (hf : ∀ x y, f x = some y → g y = h x) (l : List β) : ((l.filterMap f).map g).Sublist (l.map h) := by
  induction l
  case nil => exact .slnil
  case cons x l hi =>
    rw [List.filterMap_cons]
    split
    case h_1 => exact hi.cons _
    case h_2 y hy =>
      rw [List.map_cons, List.map_cons, hf x y hy]
      exact hi.cons_cons _

theorem edge_nodup (nodes : List (SizedNode α)) (edges : List (SizedEdge α)) (spacing : Spacing α)
    (entries : List Group.Entry) : ((chainsOf nodes edges spacing entries).map (·.edge)).Nodup := by
  refine (OrientedEdge.index_nodup_of_real _ _).sublist (map_filterMap_sublist (fun o c hc => ?_) _)
  have ⟨e, upper, lower, h⟩ := connects_of_ofEdge? hc
  rw [h.eq]

-- A real edge is drawn against its direction if its ends are turned round.
theorem mem_reversed_iff (hw : WellFormed nodes edges entries) {o : OrientedEdge String}
    (ho : o ∈ orientedOf nodes edges) (hk : o.kind = .real) :
    o.index ∈ ((chainsOf nodes edges spacing entries).filter (·.isReversed)).map (·.edge) ↔ o.isReversed = true := by
  have isReversed_eq {c : Chain α} (hc : c ∈ chainsOf nodes edges spacing entries) (he : c.edge = o.index) :
      c.isReversed = o.isReversed := by
    have ⟨o', ho', hk', _, _, _, h⟩ := exists_connects_of_mem hc
    have hi : o'.index = o.index := by rw [← he, h.eq]
    have hoo : o' = o := OrientedEdge.eq_of_index_eq ho' ho hk' hk hi
    rw [h.eq, hoo]
  simp only [List.mem_map, List.mem_filter]
  constructor
  · intro ⟨c, ⟨hc, hr⟩, he⟩
    exact isReversed_eq hc he ▸ hr
  · intro hr
    have ⟨c, hc, he⟩ : ∃ c ∈ chainsOf nodes edges spacing entries, c.edge = o.index := exists_mem_of_oriented hw ho hk
    exact ⟨c, ⟨hc, (isReversed_eq hc he).trans hr⟩, he⟩

-- A bend stands on a rank strictly between the ends of its edge.
structure BendAt (e : SizedEdge α) (index : Nat) (upper lower : Item α) (i : Item α) : Prop where
  slot : i.slot = .bend index i.rank
  upper_lt : upper.rank < i.rank
  lt_lower : i.rank < lower.rank
  path : i.path = commonPath upper.path lower.path
  kind : (i.kind = .label ∧ e.hasLabel ∧ i.width = e.labelWidth ∧ i.height = e.labelHeight) ∨
    (i.kind = .dummy ∧ i.width = 0 ∧ i.height = 0)
  extra : i.extra = 0

theorem bendAt_of_mem_bends {e : SizedEdge α} {index : Nat} (h : i ∈ bends e index upper lower) :
    BendAt e index upper lower i := by
  simp only [bends, List.mem_map, List.mem_range] at h
  obtain ⟨k, hk, rfl⟩ := h
  unfold bend
  split
  case isTrue hl => exact ⟨rfl, by simp; omega, by simp; omega, rfl, .inl ⟨rfl, by grind, rfl, rfl⟩, rfl⟩
  case isFalse => exact ⟨rfl, by simp; omega, by simp; omega, rfl, .inr ⟨rfl, rfl, rfl⟩, rfl⟩

theorem map_rank_bends {e : SizedEdge α} {index : Nat} :
    (bends e index upper lower).map (·.rank) = List.range' (upper.rank + 1) (lower.rank - upper.rank - 1) := by
  simp only [bends, List.map_map, List.range'_eq_map_range]
  apply List.map_congr_left
  intro k _
  simp only [Function.comp, bend]
  split <;> rfl

namespace Connects

variable {nodeItems : List (Item α)} {o : OrientedEdge String} {e : SizedEdge α}

theorem inner_eq (h : Connects nodeItems edges o e upper lower c) :
    c.inner = bends e o.index upper lower := by
  simp [h.eq, inner]

theorem map_rank_items (h : Connects nodeItems edges o e upper lower c) (hr : upper.rank < lower.rank) :
    c.items.map (·.rank) = List.range' upper.rank (lower.rank - upper.rank + 1) := by
  rw [h.eq]
  simp only [List.cons_append, List.map_cons, List.map_append, List.map_nil, map_rank_bends]
  obtain ⟨d, hd⟩ : ∃ d, lower.rank - upper.rank = d + 1 := ⟨lower.rank - upper.rank - 1, by omega⟩
  rw [hd, List.range'_succ, List.range'_1_concat]
  simp
  omega

theorem isChain_rank (h : Connects nodeItems edges o e upper lower c) (hr : upper.rank < lower.rank) :
    c.items.IsChain fun i j => j.rank = i.rank + 1 := by
  refine List.isChain_iff_forall_rel_of_append_cons_cons.mpr fun i j l₁ l₂ he => ?_
  have hm := h.map_rank_items hr
  rw [he, List.map_append, eq_comm, List.range'_eq_append_iff] at hm
  have ⟨k, _, _, hm⟩ := hm
  simp only [List.map_cons] at hm
  have ⟨hi, _, hm⟩ := List.range'_eq_cons_iff.mp hm.symm
  have ⟨hj, _, _⟩ := List.range'_eq_cons_iff.mp hm.symm
  omega

theorem mem_items_iff (h : Connects nodeItems edges o e upper lower c) :
    i ∈ c.items ↔ i = upper ∨ i ∈ c.inner ∨ i = lower := by
  rw [h.inner_eq]
  simp [h.eq]

-- A label is a bend.
theorem mem_inner_of_label (h : Connects (nodeItemsOf nodes edges spacing entries) edges o e upper lower c)
    (hi : i ∈ c.items) (hk : i.kind = .label) : i ∈ c.inner := by
  rcases h.mem_items_iff.mp hi with rfl | hi | rfl
  · cases (kind_of_mem_nodeItemsOf h.upper_mem).symm.trans hk
  · exact hi
  · cases (kind_of_mem_nodeItemsOf h.lower_mem).symm.trans hk

end Connects

theorem kind_bend_eq_label {e : SizedEdge α} {index rank : Nat} {path : List String} {isLabel : Bool} :
    (bend e index rank path isLabel).kind = .label ↔ isLabel = true := by
  unfold bend
  split <;> simp_all

-- Of the bends of a labelled edge the middle one carries the label.
theorem countP_label_bends {e : SizedEdge α} {index : Nat} (h : e.hasLabel → upper.rank + 2 ≤ lower.rank) :
    (bends e index upper lower).countP (·.kind = .label) = if e.hasLabel then 1 else 0 := by
  simp only [bends, List.countP_map, Function.comp_def, kind_bend_eq_label]
  split
  case isTrue hl =>
    have := h hl
    have hmiddle (k : Nat) : decide ((e.hasLabel &&
        upper.rank + 1 + k == upper.rank + (lower.rank - upper.rank) / 2) = true) =
          (k == (lower.rank - upper.rank) / 2 - 1) := by
      simp only [hl, Bool.true_and, beq_iff_eq]
      grind
    simp only [hmiddle]
    exact List.count_eq_one_of_mem List.nodup_range (List.mem_range.mpr (by omega))
  case isFalse hl => simp [hl]

-- A labelled edge crosses a rank, and one of its bends carries the label.
theorem countP_label_of_mem (hw : WellFormed nodes edges entries) (hc : c ∈ chainsOf nodes edges spacing entries)
    {e : SizedEdge α} (he : edges[c.edge]? = some e) :
    c.items.countP (·.kind = .label) = if e.hasLabel then 1 else 0 := by
  have ⟨o, ho, hk, hof, upper, lower, h⟩ := exists_orientation_of_mem hc he
  have hlen (hl : e.hasLabel) : upper.rank + 2 ≤ lower.rank := by
    have hr := Ranking.rank_add_length_le hw.isDag ho
    rw [← rank_of_mem_nodeItemsOf h.upper_mem h.upper_slot, ← rank_of_mem_nodeItemsOf h.lower_mem h.lower_slot] at hr
    have : 2 ≤ o.length := by
      rw [hof.length, OrientedEdge.requiredLength, if_pos ⟨hk, hl⟩]
      exact le_max_left ..
    omega
  rw [h.eq]
  simp [kind_of_mem_nodeItemsOf h.upper_mem, kind_of_mem_nodeItemsOf h.lower_mem, countP_label_bends hlen]

theorem exists_label_iff (hw : WellFormed nodes edges entries) (hc : c ∈ chainsOf nodes edges spacing entries)
    {e : SizedEdge α} (he : edges[c.edge]? = some e) : (∃ i ∈ c.items, i.kind = .label) ↔ e.hasLabel := by
  have hpos : 0 < c.items.countP (·.kind = .label) ↔ ∃ i ∈ c.items, i.kind = .label := by
    simp [List.countP_pos_iff]
  rw [← hpos, countP_label_of_mem hw hc he]
  split
  case isTrue hl => simp [hl]
  case isFalse hl => simp [hl]

end Chain

end LayeredDiagram
