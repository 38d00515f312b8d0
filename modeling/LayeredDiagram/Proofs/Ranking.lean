import LayeredDiagram.Layout.Rank
import LayeredDiagram.Proofs.Orientation
/-!
Ranks keep the length of every edge and are tight. Without cycles, every vertex has finitely many vertices above
it; once as many rounds have passed, its rank is what the edges from above require. Moving top vertices down and
counting from zero leave the distances long enough and no longer than needed.
-/

namespace LayeredDiagram.Ranking

variable {κ : Type} [DecidableEq κ] {edges : List (OrientedEdge κ)} {nodes : List κ} {u v : κ}
variable {f : κ → Nat} {e : OrientedEdge κ} {ranks : Ranking κ}

-- The ranking that gives each node its number.
def ofFunction (nodes : List κ) (f : κ → Nat) : Ranking κ :=
  nodes.map fun v => (v, f v)

theorem lookup_ofFunction (h : v ∈ nodes) : (ofFunction nodes f).lookup v = some (f v) := by
  induction nodes
  case nil => simp at h
  case cons w nodes hi =>
    simp only [ofFunction, List.map_cons, List.lookup_cons]
    by_cases hw : v = w
    case pos => simp [hw]
    case neg =>
      have hw' : (v == w) = false := by simpa using hw
      simpa only [hw', ofFunction] using hi ((List.mem_cons.mp h).resolve_left hw)

theorem rank_ofFunction (h : v ∈ nodes) : (ofFunction nodes f).rank v = f v := by
  simp [rank, lookup_ofFunction h]

omit [DecidableEq κ] in
theorem map_ofFunction (g : κ → Nat → Nat) :
    (ofFunction nodes f).map (fun (v, r) => (v, g v r)) = ofFunction nodes fun v => g v (f v) := by
  simp [ofFunction]

theorem ofFunction_inj {g : κ → Nat} (h : ofFunction nodes f = ofFunction nodes g) (hv : v ∈ nodes) :
    f v = g v := by
  rw [← rank_ofFunction (f := f) hv, h, rank_ofFunction hv]

theorem le_required (he : e ∈ edges) : ranks.rank e.upper + e.length ≤ required edges ranks e.lower := by
  rw [required, List.foldl_max]
  have hm : ranks.rank e.upper + e.length ∈
      (edges.filter (·.lower = e.lower)).map fun e => ranks.rank e.upper + e.length :=
    List.mem_map.mpr ⟨e, by simp [he], rfl⟩
  have := List.le_max?_getD_of_mem (k := 0) hm
  omega

-- All ends of edges are nodes, and the edges close no cycle.
structure IsDag (nodes : List κ) (edges : List (OrientedEdge κ)) : Prop where
  upper_mem : ∀ e ∈ edges, e.upper ∈ nodes
  lower_mem : ∀ e ∈ edges, e.lower ∈ nodes
  acyclic : Acyclic (Follows (edges.map OrientedEdge.arc))

-- The vertices from which a path of at least one edge leads to a vertex.
open Classical in
noncomputable def ancestors (nodes : List κ) (edges : List (OrientedEdge κ)) (v : κ) : List κ :=
  nodes.filter fun u => Relation.TransGen (Follows (edges.map OrientedEdge.arc)) u v

namespace IsDag

omit [DecidableEq κ] in
theorem follows (he : e ∈ edges) : Follows (edges.map OrientedEdge.arc) e.upper e.lower :=
  List.mem_map.mpr ⟨e, he, rfl⟩

omit [DecidableEq κ] in
theorem ancestors_lt (h : IsDag nodes edges) (hv : v ∈ nodes) :
    (ancestors nodes edges v).length < nodes.length := by
  rw [ancestors, List.length_filter_lt_length_iff_exists]
  exact ⟨v, hv, by simpa using h.acyclic v⟩

omit [DecidableEq κ] in
theorem ancestors_upper_lt (h : IsDag nodes edges) (he : e ∈ edges) :
    (ancestors nodes edges e.upper).length < (ancestors nodes edges e.lower).length := by
  classical
  have hf : ancestors nodes edges e.upper = (ancestors nodes edges e.lower).filter
      fun u => Relation.TransGen (Follows (edges.map OrientedEdge.arc)) u e.upper := by
    simp only [ancestors, List.filter_filter]
    apply List.filter_congr
    intro u _
    have ht := fun hu => Relation.TransGen.tail (a := u) hu (follows he)
    grind
  rw [hf, List.length_filter_lt_length_iff_exists]
  refine ⟨e.upper, ?mem, ?not⟩
  case mem => simpa [ancestors, h.upper_mem e he] using .single (follows he)
  case not => simpa using h.acyclic e.upper

-- After `k` rounds the vertices with fewer than `k` vertices above them have reached their ranks.
def Settled (nodes : List κ) (edges : List (OrientedEdge κ)) (k : Nat) (f : κ → Nat) : Prop :=
  ∀ v ∈ nodes, (ancestors nodes edges v).length < k → required edges (ofFunction nodes f) v = f v

theorem Settled.round {k : Nat} (h : IsDag nodes edges) (hs : Settled nodes edges k f) :
    Settled nodes edges (k + 1) (required edges (ofFunction nodes f)) := by
  intro v _ hk
  simp only [required]
  congr 1
  apply List.map_congr_left
  intro e he
  have ⟨he, hl⟩ := List.mem_filter.mp he
  have hu := h.upper_mem e he
  have hlt := h.ancestors_upper_lt he
  simp only [decide_eq_true_eq] at hl
  rw [rank_ofFunction hu, rank_ofFunction hu]
  simpa [required] using hs e.upper hu (by rw [hl] at hlt; omega)

theorem exists_relax_eq {k rounds : Nat} (h : IsDag nodes edges) (hs : Settled nodes edges k f)
    (hk : nodes.length ≤ k + rounds) : ∃ g, relax edges rounds (ofFunction nodes f) = ofFunction nodes g ∧
      ∀ v ∈ nodes, required edges (ofFunction nodes g) v = g v := by
  induction rounds generalizing k f
  case zero =>
    refine ⟨f, rfl, fun v hv => hs v hv ?_⟩
    have := h.ancestors_lt hv
    omega
  case succ rounds hi =>
    simp only [relax, map_ofFunction fun v _ => required edges (ofFunction nodes f) v]
    split
    case isTrue he => exact ⟨f, rfl, fun v hv => ofFunction_inj he hv⟩
    case isFalse => exact hi (hs.round h) (by omega)

-- The longest chains give every vertex the rank that is required from above.
theorem exists_longest_eq (h : IsDag nodes edges) : ∃ f, longest nodes edges = ofFunction nodes f ∧
    ∀ v ∈ nodes, required edges (ofFunction nodes f) v = f v :=
  h.exists_relax_eq (k := 0) (f := fun _ => 0) (by simp [Settled]) (by omega)

end IsDag

-- What is required of a vertex with edges from above is required by one of them.
theorem exists_eq_required (ranks : Ranking κ) (he : e ∈ edges) : ∃ t ∈ edges, t.lower = e.lower ∧
    required edges ranks e.lower = ranks.rank t.upper + t.length := by
  let above := (edges.filter (·.lower = e.lower)).map fun t => ranks.rank t.upper + t.length
  have hn : above ≠ [] :=
    List.ne_nil_of_mem (List.mem_map.mpr ⟨e, List.mem_filter.mpr ⟨he, by simp⟩, rfl⟩)
  obtain ⟨m, hm⟩ := Option.isSome_iff_exists.mp (List.isSome_max?_of_ne_nil hn)
  have ⟨t, ht, htm⟩ := List.mem_map.mp (List.max?_eq_some_iff.mp hm).left
  have ⟨ht, hl⟩ := List.mem_filter.mp ht
  refine ⟨t, ht, by simpa using hl, ?_⟩
  have hr : required edges ranks e.lower = max 0 (above.max?.getD 0) := List.foldl_max
  rw [hr, hm, Option.getD_some, Nat.zero_max, htm]

theorem required_eq_zero (h : ∀ e ∈ edges, e.lower ≠ v) : required edges ranks v = 0 := by
  have hf : edges.filter (·.lower = v) = [] := List.filter_eq_nil_iff.mpr fun e he => by simpa using h e he
  simp [required, hf]

-- A top vertex stays above the vertices it leads to, and next to one of them.
theorem lowered_add_length_le (ranks : Ranking κ) (he : e ∈ edges) (hl : e.length ≤ ranks.rank e.lower) :
    lowered edges ranks e.upper + e.length ≤ ranks.rank e.lower := by
  have hm : ranks.rank e.lower - e.length ∈
      (edges.filter (·.upper = e.upper)).map fun e => ranks.rank e.lower - e.length :=
    List.mem_map.mpr ⟨e, by simp [he], rfl⟩
  have := List.min?_getD_le_of_mem (k := ranks.rank e.upper) hm
  simp only [lowered]
  omega

theorem exists_eq_lowered (ranks : Ranking κ) (he : e ∈ edges) : ∃ t ∈ edges, t.upper = e.upper ∧
    lowered edges ranks e.upper = ranks.rank t.lower - t.length := by
  let limits := (edges.filter (·.upper = e.upper)).map fun t => ranks.rank t.lower - t.length
  have hn : limits ≠ [] :=
    List.ne_nil_of_mem (List.mem_map.mpr ⟨e, List.mem_filter.mpr ⟨he, by simp⟩, rfl⟩)
  obtain ⟨m, hm⟩ := Option.isSome_iff_exists.mp (List.isSome_min?_of_ne_nil hn)
  have ⟨t, ht, htm⟩ := List.mem_map.mp (List.min?_eq_some_iff.mp hm).left
  have ⟨ht, hu⟩ := List.mem_filter.mp ht
  refine ⟨t, ht, by simpa using hu, ?_⟩
  have hl : lowered edges ranks e.upper = limits.min?.getD (ranks.rank e.upper) := rfl
  rw [hl, hm, Option.getD_some, htm]

theorem not_isTop_lower (he : e ∈ edges) : isTop edges e.lower = false := by
  simp only [isTop, Bool.and_eq_false_iff, List.all_eq_false]
  exact .inl ⟨e, he, by simp⟩

theorem isTop_iff : isTop edges v ↔ (∀ e ∈ edges, e.lower ≠ v) ∧ ∃ e ∈ edges, e.upper = v := by
  simp [isTop]

-- Numbers that keep the length of every edge and waste nothing: a vertex stands as close below those above it as
-- they allow, and a vertex with none above it as close above those below it.
structure Tight (edges : List (OrientedEdge κ)) (f : κ → Nat) : Prop where
  add_length_le : ∀ e ∈ edges, f e.upper + e.length ≤ f e.lower
  below : ∀ e ∈ edges, ∃ t ∈ edges, t.lower = e.lower ∧ f t.upper + t.length = f t.lower
  top : ∀ e ∈ edges, isTop edges e.upper → ∃ t ∈ edges, t.upper = e.upper ∧ f t.upper + t.length = f t.lower

-- Moving top vertices down makes them tight, and the others stay so: a top vertex with a tight edge is already as
-- low as that edge allows, and does not move.
theorem exists_pullDown_eq (h : IsDag nodes edges) :
    ∃ g, pullDown edges (longest nodes edges) = ofFunction nodes g ∧ Tight edges g := by
  have ⟨f, hf, hr⟩ := h.exists_longest_eq
  let g v := if isTop edges v then lowered edges (ofFunction nodes f) v else f v
  have hp : pullDown edges (ofFunction nodes f) = ofFunction nodes g :=
    map_ofFunction fun v r => if isTop edges v then lowered edges (ofFunction nodes f) v else r
  have rank_lower {e} (he : e ∈ edges) : (ofFunction nodes f).rank e.lower = f e.lower :=
    rank_ofFunction (h.lower_mem e he)
  have lower_eq {e} (he : e ∈ edges) : g e.lower = f e.lower := by simp [g, not_isTop_lower he]
  have longest_le {e} (he : e ∈ edges) : f e.upper + e.length ≤ f e.lower := by
    rw [← hr _ (h.lower_mem e he), ← rank_ofFunction (f := f) (h.upper_mem e he)]
    exact le_required he
  have le {e} (he : e ∈ edges) : g e.upper + e.length ≤ g e.lower := by
    have hfe := longest_le he
    rw [lower_eq he]
    by_cases ht : isTop edges e.upper
    case pos =>
      have := lowered_add_length_le (ofFunction nodes f) he (by rw [rank_lower he]; omega)
      rw [rank_lower he] at this
      simpa only [g, ht, if_true] using this
    case neg => simpa [g, ht] using hfe
  refine ⟨g, by rw [hf, hp], fun e he => le he, fun e he => ?below, fun e he ht => ?top⟩
  case below =>
    have ⟨t, ht, htl, hreq⟩ := exists_eq_required (ofFunction nodes f) he
    refine ⟨t, ht, htl, Nat.le_antisymm (le ht) ?_⟩
    rw [hr _ (h.lower_mem e he), ← htl, rank_ofFunction (h.upper_mem t ht)] at hreq
    rw [lower_eq ht, hreq]
    by_cases htop : isTop edges t.upper
    case pos =>
      have hz : f t.upper = 0 := by
        rw [← hr _ (h.upper_mem t ht)]
        exact required_eq_zero (isTop_iff.mp htop).left
      omega
    case neg => simp [g, htop]
  case top =>
    have ⟨t, hte, htu, hlow⟩ := exists_eq_lowered (ofFunction nodes f) he
    refine ⟨t, hte, htu, ?_⟩
    have hg : g t.upper = lowered edges (ofFunction nodes f) e.upper := by simp [g, htu, ht]
    have hle := longest_le hte
    rw [hg, hlow, rank_lower hte, lower_eq hte]
    omega

theorem Tight.sub {least : Nat} (h : Tight edges f) (hl : ∀ e ∈ edges, least ≤ f e.upper) :
    Tight edges fun v => f v - least where
  add_length_le e he := by
    have := h.add_length_le e he
    have := hl e he
    omega
  below e he := by
    have ⟨t, ht, htl, heq⟩ := h.below e he
    have := hl t ht
    exact ⟨t, ht, htl, by omega⟩
  top e he htop := by
    have ⟨t, ht, htu, heq⟩ := h.top e he htop
    have := hl t ht
    exact ⟨t, ht, htu, by omega⟩

omit [DecidableEq κ] in
theorem exists_fromZero_eq (nodes : List κ) (f : κ → Nat) :
    ∃ least, fromZero (ofFunction nodes f) = ofFunction nodes (fun v => f v - least) ∧
      (∀ v ∈ nodes, least ≤ f v) ∧ (nodes ≠ [] → ∃ v ∈ nodes, f v = least) := by
  let numbers := (ofFunction nodes f).map (·.2)
  have mem_numbers {v} (hv : v ∈ nodes) : f v ∈ numbers :=
    List.mem_map.mpr ⟨(v, f v), List.mem_map.mpr ⟨v, hv, rfl⟩, rfl⟩
  refine ⟨numbers.min?.getD 0, ?eq, ?le, ?attained⟩
  case eq => exact map_ofFunction fun _ r => r - numbers.min?.getD 0
  case le => exact fun v hv => List.min?_getD_le_of_mem (mem_numbers hv)
  case attained =>
    intro hn
    have ⟨v, hv⟩ := List.exists_mem_of_ne_nil _ hn
    obtain ⟨m, hm⟩ := Option.isSome_iff_exists.mp
      (List.isSome_min?_of_ne_nil (List.ne_nil_of_mem (mem_numbers hv)))
    have ⟨_, hp, hpm⟩ := List.mem_map.mp (List.min?_eq_some_iff.mp hm).left
    have ⟨u, hu, hup⟩ := List.mem_map.mp hp
    exact ⟨u, hu, by rw [hm, Option.getD_some, ← hpm, ← hup]⟩

-- Every node has a rank, the first rank is zero, and all ranks are tight.
theorem exists_ofEdges_eq (h : IsDag nodes edges) : ∃ f, ofEdges nodes edges = ofFunction nodes f ∧
    Tight edges f ∧ (nodes ≠ [] → ∃ v ∈ nodes, f v = 0) := by
  have ⟨g, hg, ht⟩ := exists_pullDown_eq h
  have ⟨least, hz, hle, hmin⟩ := exists_fromZero_eq nodes g
  refine ⟨fun v => g v - least, by rw [ofEdges, hg, hz], ht.sub fun e he => hle _ (h.upper_mem e he), ?_⟩
  intro hn
  have ⟨v, hv, hgv⟩ := hmin hn
  exact ⟨v, hv, by simp [hgv]⟩

theorem rank_add_length_le (h : IsDag nodes edges) (he : e ∈ edges) :
    (ofEdges nodes edges).rank e.upper + e.length ≤ (ofEdges nodes edges).rank e.lower := by
  have ⟨f, hf, ht, _⟩ := exists_ofEdges_eq h
  rw [hf, rank_ofFunction (h.upper_mem e he), rank_ofFunction (h.lower_mem e he)]
  exact ht.add_length_le e he

end LayeredDiagram.Ranking
