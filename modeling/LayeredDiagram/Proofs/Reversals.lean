import LayeredDiagram.Proofs.GreedyOrder
import LayeredDiagram.Proofs.TightRanks
/-!
Which edges are drawn against their direction, in exact arithmetic. Where the ordering edges follow the feedback
order, no direction that is wished for closes a cycle, so that exactly the real edges that point backward in that
order are reversed: none in a graph without cycles, and never more than half of the weight.
-/

namespace LayeredDiagram

open LayeredDiagram.Group

namespace OrientedEdge

section Wishes

variable {κ : Type} [DecidableEq κ] {r : Request κ} {rs : List (Request κ)} {done : List (OrientedEdge κ)}
variable {prefersReversed : Request κ → Bool} {m : κ → Nat} {u v : κ}

-- An edge with its ends in the wished order.
def wish (prefersReversed : Request κ → Bool) (r : Request κ) : OrientedEdge κ :=
  if prefersReversed r then ⟨r.index, r.kind, r.target, r.source, r.length, true⟩
  else ⟨r.index, r.kind, r.source, r.target, r.length, false⟩

omit [DecidableEq κ] in
theorem isReversed_wish : (wish prefersReversed r).isReversed = prefersReversed r := by
  unfold wish
  split <;> simp_all

omit [DecidableEq κ] in
theorem index_wish : (wish prefersReversed r).index = r.index := by
  unfold wish
  split <;> rfl

omit [DecidableEq κ] in
theorem kind_wish : (wish prefersReversed r).kind = r.kind := by
  unfold wish
  split <;> rfl

omit [DecidableEq κ] in
theorem le_of_reaches (hd : ∀ o ∈ done, m o.upper < m o.lower) (h : Reaches (done.map arc) u v) : m u ≤ m v := by
  induction h
  case refl => exact le_rfl
  case tail hf hi =>
    obtain ⟨o, ho, hao⟩ := List.mem_map.mp hf
    obtain ⟨rfl, rfl⟩ := Prod.mk.inj hao
    exact hi.trans (hd o ho).le

-- Where a number grows along all edges so far, an edge along which it is wished to grow closes no cycle.
theorem add_eq_wish (hn : r.source ≠ r.target) (hd : ∀ o ∈ done, m o.upper < m o.lower)
    (hr : m (wish prefersReversed r).upper < m (wish prefersReversed r).lower) :
    add prefersReversed done r = done ++ [wish prefersReversed r] := by
  have not_leads {u v : κ} (h : m u < m v) : Reach.leads (done.map arc) v u = false := by
    rw [Bool.eq_false_iff, ne_eq, Reach.leads_iff_reaches]
    exact fun hl => h.not_ge (le_of_reaches hd hl)
  cases hp : prefersReversed r
  case false =>
    simp only [wish, hp, Bool.false_eq_true, if_false] at hr
    simp [add, wish, hp, not_leads hr]
  case true =>
    simp only [wish, hp, if_true] at hr
    simp [add, wish, hp, not_leads hr, hn.symm]

theorem foldl_add_eq_wish (hn : ∀ r ∈ rs, r.source ≠ r.target) (hd : ∀ o ∈ done, m o.upper < m o.lower)
    (hr : ∀ r ∈ rs, m (wish prefersReversed r).upper < m (wish prefersReversed r).lower) :
    rs.foldl (add prefersReversed) done = done ++ rs.map (wish prefersReversed) := by
  induction rs generalizing done
  case nil => simp
  case cons r rs hi =>
    obtain ⟨hnr, hn⟩ := List.forall_mem_cons.mp hn
    obtain ⟨hrr, hr⟩ := List.forall_mem_cons.mp hr
    rw [List.foldl_cons, add_eq_wish hnr hd hrr, hi hn ?_ hr]
    · simp
    · exact List.forall_mem_append.mpr ⟨hd, List.forall_mem_singleton.mpr hrr⟩

end Wishes

section Order

variable {nodes : List String} {edges : List (SizedEdge Rat)} {v : String}

-- The arcs that the feedback order is made for.
abbrev arcsOf (edges : List (SizedEdge Rat)) : List (Feedback.Arc String Rat) :=
  (edges.filter (!·.isLoop)).map fun e => ⟨e.source, e.target, e.weight⟩

-- All edges end at nodes.
def EndsIn (nodes : List String) (edges : List (SizedEdge Rat)) : Prop :=
  ∀ e ∈ edges, e.source ∈ nodes ∧ e.target ∈ nodes

theorem mem_arcsOf {a : Feedback.Arc String Rat} (ha : a ∈ arcsOf edges) : ∃ e ∈ edges, e.source ≠ e.target ∧
    a = ⟨e.source, e.target, e.weight⟩ := by
  obtain ⟨e, he, rfl⟩ := List.mem_map.mp ha
  obtain ⟨he, hl⟩ := List.mem_filter.mp he
  exact ⟨e, he, by simpa [SizedEdge.isLoop] using hl, rfl⟩

theorem mem_arcsOf_of_mem {e : SizedEdge Rat} (he : e ∈ edges) (hn : e.source ≠ e.target) :
    ⟨e.source, e.target, e.weight⟩ ∈ arcsOf edges :=
  List.mem_map.mpr ⟨e, List.mem_filter.mpr ⟨he, by simpa [SizedEdge.isLoop] using hn⟩, rfl⟩

theorem greedy_feedbackOrder (hn : nodes.Nodup) (he : EndsIn nodes edges) :
    Feedback.Greedy (arcsOf edges) nodes (feedbackOrder nodes edges) := by
  refine Feedback.greedy_order hn (fun a ha => ?_) (fun a ha => ?_)
  · obtain ⟨e, hm, _, rfl⟩ := mem_arcsOf ha
    exact (he e hm).left
  · obtain ⟨e, hm, _, rfl⟩ := mem_arcsOf ha
    exact (he e hm).right

-- Whether the feedback order puts the target of an edge before its source.
def pointsBack (nodes : List String) (edges : List (SizedEdge Rat)) (source target : String) : Bool :=
  (feedbackOrder nodes edges).idxOf target < (feedbackOrder nodes edges).idxOf source

-- The edges for which the other direction is wished.
abbrev backwards (nodes : List String) (edges : List (SizedEdge Rat)) (r : Request String) : Bool :=
  pointsBack nodes edges r.source r.target

theorem idxOf_wish_backwards {r : Request String} (hn : r.source ≠ r.target) (hs : r.source ∈ feedbackOrder nodes edges) :
    (feedbackOrder nodes edges).idxOf (wish (backwards nodes edges) r).upper <
      (feedbackOrder nodes edges).idxOf (wish (backwards nodes edges) r).lower := by
  cases hb : backwards nodes edges r
  case true => simpa [wish, hb] using of_decide_eq_true hb
  case false =>
    have hle := not_lt.mp (of_decide_eq_false hb)
    have hne : (feedbackOrder nodes edges).idxOf r.source ≠ (feedbackOrder nodes edges).idxOf r.target :=
      fun h => hn ((List.idxOf_inj hs).mp h)
    simpa [wish, hb] using lt_of_le_of_ne hle hne

-- Where the ordering edges follow the feedback order, all edges get the direction that is wished for them.
theorem all_eq_wish (hn : nodes.Nodup) (he : EndsIn nodes edges) (ho : ∀ e ∈ edges, e.kind = .ordering →
      e.source ≠ e.target → (feedbackOrder nodes edges).idxOf e.source < (feedbackOrder nodes edges).idxOf e.target) :
    all nodes edges = (requests .ordering edges).map (wish fun _ => false) ++
      (requests .real edges).map (wish (backwards nodes edges)) := by
  let m (v : String) : Nat := (feedbackOrder nodes edges).idxOf v
  have hordering : ∀ r ∈ requests .ordering edges, m (wish (fun _ => false) r).upper < m (wish (fun _ => false) r).lower := by
    intro r hr
    obtain ⟨e, hre, hk, _, hne, hs, ht, _⟩ := mem_requests_iff.mp hr
    simpa [wish, hs, ht] using ho e (List.mem_of_getElem? hre) hk hne
  have hreal : ∀ r ∈ requests .real edges,
      m (wish (backwards nodes edges) r).upper < m (wish (backwards nodes edges) r).lower := by
    intro r hr
    obtain ⟨e, hre, _, _, _, hs, _⟩ := mem_requests_iff.mp hr
    exact idxOf_wish_backwards (ne_of_mem_requests hr)
      ((greedy_feedbackOrder hn he).mem_iff.mpr (hs ▸ (he e (List.mem_of_getElem? hre)).left))
  have hfirst := foldl_add_eq_wish (fun _ h => ne_of_mem_requests h) (List.forall_mem_nil _) hordering
  have hdone : ∀ o ∈ (requests .ordering edges).map (wish fun _ => false), m o.upper < m o.lower :=
    List.forall_mem_map.mpr hordering
  rw [all, hfirst]
  exact foldl_add_eq_wish (fun _ h => ne_of_mem_requests h) hdone hreal

end Order

end OrientedEdge

open OrientedEdge

section Reversed

variable {α : Type} [Scalar α] {nodes : List (SizedNode α)} {edges : List (SizedEdge α)} {entries : List Entry}
variable {groups : List Group}

omit [Scalar α] in
theorem map_filter_filterMap {β γ κ : Type} {f : β → Option γ} {p : γ → Bool} {q : β → Bool} {g : γ → κ} {h : β → κ}
    {l : List β} (hf : ∀ x ∈ l, ∃ y, f x = some y ∧ p y = q x ∧ g y = h x) :
    ((l.filterMap f).filter p).map g = (l.filter q).map h := by
  induction l
  case nil => rfl
  case cons x l hi =>
    obtain ⟨⟨y, hy, hp, hg⟩, hf⟩ := List.forall_mem_cons.mp hf
    rw [List.filterMap_cons_some hy, List.filter_cons, List.filter_cons, hp]
    split
    case isTrue => rw [List.map_cons, List.map_cons, hg, hi hf]
    case isFalse => exact hi hf

-- The chains that are drawn against their direction are those of the edges whose ends are turned round.
theorem Chain.map_edge_reversed (hw : WellFormed nodes edges entries) (spacing : Spacing α) :
    ((chainsOf nodes edges spacing entries).filter (·.isReversed)).map (·.edge) =
      (((orientedOf nodes edges).filter (·.kind = .real)).filter (·.isReversed)).map (·.index) := by
  refine map_filter_filterMap fun o ho => ?_
  obtain ⟨c, hc, hindex, hreversed⟩ := exists_ofEdge?_eq_some hw spacing (List.mem_of_mem_filter ho)
  exact ⟨c, hc, hreversed, hindex⟩

-- A well formed graph has a layout, with the edges reversed whose ends are turned round.
theorem RawLayout.exists_reversed_eq (hw : WellFormed nodes edges (forest [] groups)) (sweeps : Nat)
    (spacing : Spacing α) : ∃ raw, ofGraph sweeps nodes edges spacing groups = .ok raw ∧
      raw.reversed = (((orientedOf nodes edges).filter (·.kind = .real)).filter (·.isReversed)).map (·.index) ∧
      ∀ o ∈ orientedOf nodes edges, Ranking.rank raw.ranks o.upper < Ranking.rank raw.ranks o.lower := by
  by_cases hn : nodes = []
  case neg =>
    exact ⟨_, ofGraph_eq_solve hn hw sweeps spacing, Chain.map_edge_reversed hw spacing, fun o ho => hw.rank_lt ho⟩
  case pos =>
    have hnil : orientedOf nodes edges = [] := List.eq_nil_iff_forall_not_mem.mpr fun o ho => by
      obtain ⟨e, he, _⟩ := exists_edge_of_mem_all ho
      simpa [hn] using (hw.ends_mem_of_getElem? he).left
    exact ⟨{}, by simp [ofGraph, hn], by simp [hnil], by simp [hnil]⟩

end Reversed

section Weights

variable {nodes : List (SizedNode Rat)} {edges : List (SizedEdge Rat)} {groups : List Group}

-- An edge between different nodes leads from one to the other.
def LeadsTo (edges : List (SizedEdge Rat)) (u v : String) : Prop :=
  ∃ e ∈ edges, e.source ≠ e.target ∧ e.source = u ∧ e.target = v

def totalWeight (edges : List (SizedEdge Rat)) : Rat :=
  (edges.map (·.weight)).sum

theorem weight_of_mem_arcsOf (h : ∀ e ∈ edges, e.source ≠ e.target → 1e-9 < e.weight) :
    ∀ a ∈ arcsOf edges, 1e-9 < a.weight := by
  intro a ha
  obtain ⟨e, he, hn, rfl⟩ := mem_arcsOf ha
  exact h e he hn

-- Without cycles the feedback order follows all edges.
theorem idxOf_lt_idxOf_of_acyclic {ids : List String} (hn : ids.Nodup) (he : EndsIn ids edges)
    (ha : Acyclic (LeadsTo edges)) (hweight : ∀ e ∈ edges, e.source ≠ e.target → 1e-9 < e.weight)
    {e : SizedEdge Rat} (hm : e ∈ edges) (hne : e.source ≠ e.target) :
    (feedbackOrder ids edges).idxOf e.source < (feedbackOrder ids edges).idxOf e.target := by
  have hacyclic : Acyclic fun u v => ∃ a ∈ arcsOf edges, a.source = u ∧ a.target = v := by
    refine fun v hv => ha v (hv.lift (fun u => u) fun u w ⟨a, hma, hs, ht⟩ => ?_)
    obtain ⟨e, he, hn, rfl⟩ := mem_arcsOf hma
    exact ⟨e, he, hn, hs, ht⟩
  exact (greedy_feedbackOrder hn he).idxOf_lt_idxOf (weight_of_mem_arcsOf hweight) hacyclic _
    (mem_arcsOf_of_mem hm hne) (he e hm).left (he e hm).right

theorem isReversed_of_acyclic {ids : List String} (hn : ids.Nodup) (he : EndsIn ids edges)
    (ha : Acyclic (LeadsTo edges)) (hweight : ∀ e ∈ edges, e.source ≠ e.target → 1e-9 < e.weight)
    {o : OrientedEdge String} (ho : o ∈ OrientedEdge.all ids edges) : o.isReversed = false := by
  have hforward {e : SizedEdge Rat} (hm : e ∈ edges) (hne : e.source ≠ e.target) :=
    idxOf_lt_idxOf_of_acyclic hn he ha hweight hm hne
  rw [all_eq_wish hn he fun e hm _ hne => hforward hm hne] at ho
  cases List.mem_append.mp ho
  case inl ho =>
    obtain ⟨r, _, rfl⟩ := List.mem_map.mp ho
    exact isReversed_wish
  case inr ho =>
    obtain ⟨r, hr, rfl⟩ := List.mem_map.mp ho
    obtain ⟨e, hre, _, _, hne, hs, ht, _⟩ := mem_requests_iff.mp hr
    rw [isReversed_wish, backwards, pointsBack, hs, ht, decide_eq_false_iff_not]
    exact (hforward (List.mem_of_getElem? hre) hne).not_gt

-- Without cycles nothing is reversed, and all edges go down.
theorem RawLayout.ofGraph_acyclic (hw : WellFormed nodes edges (forest [] groups)) (ha : Acyclic (LeadsTo edges))
    (hweight : ∀ e ∈ edges, e.source ≠ e.target → 1e-9 < e.weight) (sweeps : Nat) (spacing : Spacing Rat) :
    ∃ raw, ofGraph sweeps nodes edges spacing groups = .ok raw ∧ raw.reversed = [] ∧
      ∀ e ∈ edges, e.source ≠ e.target → Ranking.rank raw.ranks e.source < Ranking.rank raw.ranks e.target := by
  obtain ⟨raw, hraw, hreversed, hrank⟩ := exists_reversed_eq hw sweeps spacing
  have hforward {o : OrientedEdge String} (ho : o ∈ orientedOf nodes edges) : o.isReversed = false :=
    isReversed_of_acyclic hw.nodes_nodup hw.ends_mem ha hweight ho
  refine ⟨raw, hraw, ?reversed, fun e he hne => ?rank⟩
  case reversed =>
    rw [hreversed, List.map_eq_nil_iff, List.filter_eq_nil_iff]
    intro o ho
    simp [hforward (List.mem_of_mem_filter ho)]
  case rank =>
    obtain ⟨k, hk⟩ := List.getElem?_of_mem he
    obtain ⟨o, ho, hok⟩ : ∃ o ∈ orientedOf nodes edges, o.index = k := exists_mem_all hk hne
    obtain ⟨e', he', hof⟩ := exists_edge_of_mem_all ho
    obtain rfl : e' = e := Option.some.inj (he'.symm.trans (hok ▸ hk))
    rcases hof.ends with ⟨hu, hl, _⟩ | ⟨_, _, hr⟩
    · exact hu ▸ hl ▸ hrank o ho
    · exact absurd (hforward ho) (by simp [hr])

theorem map_fst_filter_zipIdx {β : Type} (p : β → Bool) (l : List β) :
    (l.zipIdx.filter fun x => p x.1).map (·.1) = l.filter p := by
  conv_rhs => rw [← List.zipIdx_map_fst 0 l, List.filter_map]
  rfl

-- The reversed edges are those that the feedback order points back.
theorem edges_reversed_eq {ids : List String} (hn : ids.Nodup) (he : EndsIn ids edges) (hk : ∀ e ∈ edges, e.kind = .real) :
    ((((OrientedEdge.all ids edges).filter (·.kind = .real)).filter (·.isReversed)).map (·.index)).filterMap (edges[·]?) =
      (edges.filter (!·.isLoop)).filter fun e => pointsBack ids edges e.source e.target := by
  have hordering : requests .ordering edges = [] := List.eq_nil_iff_forall_not_mem.mpr fun r hr => by
    obtain ⟨e, hre, ho, _⟩ := mem_requests_iff.mp hr
    simp [hk e (List.mem_of_getElem? hre)] at ho
  have hreal : ((requests .real edges).map (wish (backwards ids edges))).filter (·.kind = .real) =
      (requests .real edges).map (wish (backwards ids edges)) := by
    refine List.filter_eq_self.mpr fun o ho => ?_
    obtain ⟨r, hr, rfl⟩ := List.mem_map.mp ho
    obtain ⟨_, _, _, hkr, _⟩ := mem_requests_iff.mp hr
    rw [kind_wish, hkr]
    rfl
  have hrequests : requests .real edges = (edges.zipIdx.filter fun x => !x.1.isLoop).map fun x =>
      ⟨x.2, .real, x.1.source, x.1.target, requiredLength x.1⟩ := by
    refine congrArg _ (List.filter_congr fun x hx => ?_)
    simp [hk x.1 (List.fst_mem_of_mem_zipIdx hx)]
  have hget : ∀ x ∈ (edges.zipIdx.filter fun x => !x.1.isLoop).filter fun x => pointsBack ids edges x.1.source x.1.target,
      edges[x.2]? = some x.1 := fun x hx =>
    List.mem_zipIdx_iff_getElem?.mp (List.mem_of_mem_filter (List.mem_of_mem_filter hx))
  rw [all_eq_wish hn he fun e hm ho => by simp [hk e hm] at ho, hordering, List.map_nil, List.nil_append, hreal,
    List.filter_map, List.map_map, hrequests]
  simp only [Function.comp_def, isReversed_wish, index_wish, List.filter_map, List.map_map, List.filterMap_map]
  rw [List.filterMap_congr hget, List.filterMap_eq_map', List.filter_filter, List.filter_filter]
  exact map_fst_filter_zipIdx (fun e => pointsBack ids edges e.source e.target && !e.isLoop) edges

theorem total_arcsOf (edges : List (SizedEdge Rat)) (p : String → String → Prop) [∀ u v, Decidable (p u v)] :
    Feedback.total (arcsOf edges) p =
      totalWeight ((edges.filter (!·.isLoop)).filter fun e => p e.source e.target) := by
  rw [← Feedback.sum_filter_eq_total, Scalar.sum, ← List.sum_eq_foldl, arcsOf, List.filter_map, List.map_map, totalWeight]
  rfl

-- The feedback order points back at most half of the weight.
theorem two_mul_totalWeight_le {ids : List String} (hn : ids.Nodup) (he : EndsIn ids edges)
    (hweight : ∀ e ∈ edges, e.source ≠ e.target → 1e-9 < e.weight) :
    2 * totalWeight ((edges.filter (!·.isLoop)).filter fun e => pointsBack ids edges e.source e.target) ≤
      totalWeight (edges.filter (!·.isLoop)) := by
  have hends : ∀ a ∈ arcsOf edges, a.source ∈ ids ∧ a.target ∈ ids := fun a ha => by
    obtain ⟨e, hm, _, rfl⟩ := mem_arcsOf ha
    exact he e hm
  have hback : Feedback.backward (arcsOf edges) ids (feedbackOrder ids edges) =
      totalWeight ((edges.filter (!·.isLoop)).filter fun e => pointsBack ids edges e.source e.target) :=
    (Feedback.total_congr fun a ha => and_iff_right (hends a ha)).trans
      (total_arcsOf edges fun s t => (feedbackOrder ids edges).idxOf t < (feedbackOrder ids edges).idxOf s)
  have hall : Feedback.inside (arcsOf edges) ids = totalWeight (edges.filter (!·.isLoop)) := by
    refine (Feedback.total_congr fun a ha => iff_true_intro (hends a ha)).trans ((total_arcsOf edges fun _ _ => True).trans ?_)
    rw [List.filter_eq_self.mpr (by simp)]
  rw [← hback, ← hall]
  refine (greedy_feedbackOrder hn he).two_mul_backward_le (weight_of_mem_arcsOf hweight) (fun a ha => ?_) hn
  obtain ⟨e, _, hne, rfl⟩ := mem_arcsOf ha
  exact hne

-- Without ordering edges at most half of the weight is reversed.
theorem RawLayout.ofGraph_reversed_weight (hw : WellFormed nodes edges (forest [] groups))
    (hk : ∀ e ∈ edges, e.kind = .real) (hweight : ∀ e ∈ edges, e.source ≠ e.target → 1e-9 < e.weight) (sweeps : Nat)
    (spacing : Spacing Rat) : ∃ raw, ofGraph sweeps nodes edges spacing groups = .ok raw ∧
      (∀ k ∈ raw.reversed, ∃ e, edges[k]? = some e ∧ e.source ≠ e.target) ∧
      totalWeight (raw.reversed.filterMap (edges[·]?)) ≤ totalWeight (edges.filter fun e => e.source ≠ e.target) / 2 := by
  obtain ⟨raw, hraw, hreversed, _⟩ := exists_reversed_eq hw sweeps spacing
  refine ⟨raw, hraw, fun k hkr => ?edges, ?weight⟩
  case edges =>
    rw [hreversed] at hkr
    obtain ⟨o, ho, rfl⟩ := List.mem_map.mp hkr
    obtain ⟨e, he, hof⟩ := exists_edge_of_mem_all (List.mem_of_mem_filter (List.mem_of_mem_filter ho))
    exact ⟨e, he, hof.source_ne⟩
  case weight =>
    have hle := two_mul_totalWeight_le hw.nodes_nodup hw.ends_mem hweight
    have hloops : (edges.filter fun e => e.source ≠ e.target) = edges.filter (!·.isLoop) :=
      List.filter_congr fun e _ => by rw [Bool.eq_iff_iff]; simp [SizedEdge.isLoop]
    rw [hreversed, edges_reversed_eq hw.nodes_nodup hw.ends_mem hk, hloops]
    linarith

-- Three edges form a cycle; one of them is turned round.
theorem RawLayout.ofGraph_reversed_weight_nestedGroups : ∃ raw,
    ofGraph 4 Arrangement.nestedGroups.nodes Arrangement.nestedGroups.edges Arrangement.nestedGroups.spacing
      Arrangement.nestedGroups.groups = .ok raw ∧
    totalWeight (raw.reversed.filterMap (Arrangement.nestedGroups.edges[·]?)) ≤ 3 / 2 := by
  have hw := Register.error?_eq_none_iff.mp (by decide : Register.error? Arrangement.nestedGroups.nodes
    Arrangement.nestedGroups.edges (forest [] Arrangement.nestedGroups.groups) = none)
  have hk : ∀ e ∈ Arrangement.nestedGroups.edges, e.kind = .real := by decide
  have hweight : ∀ e ∈ Arrangement.nestedGroups.edges, e.source ≠ e.target → 1e-9 < e.weight := by
    simp [Arrangement.nestedGroups, SizedEdge.labelled, SizedEdge.plain]
    norm_num
  obtain ⟨raw, hraw, _, hle⟩ := ofGraph_reversed_weight hw hk hweight 4 Arrangement.nestedGroups.spacing
  have htotal : totalWeight (Arrangement.nestedGroups.edges.filter fun e => e.source ≠ e.target) = 3 := by
    simp [totalWeight, Arrangement.nestedGroups, SizedEdge.labelled, SizedEdge.plain]
    norm_num
  exact ⟨raw, hraw, htotal ▸ hle⟩

-- Real and ordering edges without a cycle between different nodes; "b" has an edge to itself.
def fork : SizedGraph Rat where
  nodes := [{ id := "c", width := 40, height := 20 }, { id := "b", width := 40, height := 20 },
    { id := "a", width := 40, height := 20 }]
  edges := [.labelled "a" "b" (some "calls") 30 10, .labelled "b" "c" none 0 0, .labelled "b" "b" none 0 0,
    .ordering "a" "c" 8]
  groups := []
  spacing := .standard
  margin := ⟨0, 0⟩

theorem RawLayout.ofGraph_acyclic_fork : ∃ raw, ofGraph 4 fork.nodes fork.edges fork.spacing fork.groups = .ok raw ∧
    raw.reversed = [] ∧ Ranking.rank raw.ranks "a" < Ranking.rank raw.ranks "b" ∧
    Ranking.rank raw.ranks "b" < Ranking.rank raw.ranks "c" := by
  have hw := Register.error?_eq_none_iff.mp
    (by decide : Register.error? fork.nodes fork.edges (forest [] fork.groups) = none)
  have ha : Acyclic (LeadsTo fork.edges) := by
    refine Acyclic.of_measure (["a", "b", "c"].idxOf ·) fun u v h => ?_
    obtain ⟨e, he, hne, rfl, rfl⟩ := h
    revert e
    decide
  have hweight : ∀ e ∈ fork.edges, e.source ≠ e.target → 1e-9 < e.weight := by
    simp [fork, SizedEdge.labelled, SizedEdge.ordering, SizedEdge.plain]
    norm_num
  obtain ⟨raw, hraw, hreversed, hrank⟩ := ofGraph_acyclic hw ha hweight 4 fork.spacing
  refine ⟨raw, hraw, hreversed, ?_, ?_⟩
  · exact hrank (.labelled "a" "b" (some "calls") 30 10) (by simp [fork]) (by decide)
  · exact hrank (.labelled "b" "c" none 0 0) (by simp [fork]) (by decide)

end Weights

end LayeredDiagram
