import LayeredDiagram.Proofs.Existence
/-!
The ranks of a finished layout. They count from zero, every edge between different nodes spans at least as many
ranks as it needs, in the direction in which it is drawn, and no node could be moved towards the nodes it is
held by.
-/

namespace LayeredDiagram

variable {α : Type} [Scalar α] {nodes : List (SizedNode α)} {edges : List (SizedEdge α)} {groups : List Group}
variable {oriented : List (OrientedEdge String)} {e : SizedEdge α} {o : OrientedEdge String} {u v : String}

namespace OrientedEdge

-- Some edge leads down from one vertex to the other.
def Leads (oriented : List (OrientedEdge String)) (u v : String) : Prop :=
  ∃ o ∈ oriented, o.upper = u ∧ o.lower = v

-- The largest length that the edges from one vertex down to another require.
def largestLength (oriented : List (OrientedEdge String)) (u v : String) : Nat :=
  ((oriented.filter fun o => o.upper = u ∧ o.lower = v).map (·.length)).foldl max 0

-- The largest of the lengths is the one of an edge that fits exactly.
theorem largestLength_eq {f : String → Nat} (hf : ∀ o ∈ oriented, f o.upper + o.length ≤ f o.lower)
    (ho : o ∈ oriented) (he : f o.upper + o.length = f o.lower) :
    largestLength oriented o.upper o.lower = o.length := by
  let lengths := (oriented.filter fun t => t.upper = o.upper ∧ t.lower = o.lower).map (·.length)
  have hm : o.length ∈ lengths := List.mem_map.mpr ⟨o, List.mem_filter.mpr ⟨ho, by simp⟩, rfl⟩
  have hmax : lengths.max? = some o.length := by
    refine List.max?_eq_some_iff.mpr ⟨hm, fun n hn => ?_⟩
    have ⟨t, ht, htn⟩ := List.mem_map.mp hn
    have ⟨ht, hends⟩ := List.mem_filter.mp ht
    simp only [decide_eq_true_eq] at hends
    have := hf t ht
    rw [hends.left, hends.right] at this
    omega
  have hl : largestLength oriented o.upper o.lower = max 0 (lengths.max?.getD 0) := List.foldl_max
  rw [hl, hmax, Option.getD_some, Nat.zero_max]

-- Numbers that are tight over the edges are tight over the pairs that edges lead from and to.
theorem exists_largestLength_below {f : String → Nat} (hf : Ranking.Tight oriented f) (h : Leads oriented u v) :
    ∃ w, Leads oriented w v ∧ f w + largestLength oriented w v = f v := by
  have ⟨o, ho, _, hv⟩ := h
  have ⟨t, ht, htv, he⟩ := hf.below o ho
  have hl := largestLength_eq hf.add_length_le ht he
  rw [htv, hv] at hl he
  exact ⟨t.upper, ⟨t, ht, rfl, htv.trans hv⟩, hl ▸ he⟩

theorem exists_largestLength_top {f : String → Nat} (hf : Ranking.Tight oriented f) (h : Leads oriented u v)
    (hu : ∀ w, ¬Leads oriented w u) : ∃ w, Leads oriented u w ∧ f u + largestLength oriented u w = f w := by
  have ⟨o, ho, hou, _⟩ := h
  have htop : Ranking.isTop oriented o.upper :=
    Ranking.isTop_iff.mpr ⟨fun t ht hl => hu t.upper ⟨t, ht, rfl, hl.trans hou⟩, o, ho, rfl⟩
  have ⟨t, ht, htu, he⟩ := hf.top o ho htop
  have hl := largestLength_eq hf.add_length_le ht he
  rw [htu, hou] at hl he
  exact ⟨t.lower, ⟨t, ht, htu.trans hou, rfl⟩, hl ▸ he⟩

end OrientedEdge

open LayeredDiagram.Group OrientedEdge

-- Least number of ranks that a real edge between different nodes spans.
def SizedEdge.leastSpan (e : SizedEdge α) : Int :=
  max 1 (max e.minlen (if e.hasLabel then 2 else 1))

theorem OrientedEdge.OrientationOf.length_eq (h : OrientationOf e o) (hk : e.kind = .real) :
    (o.length : Int) = e.leastSpan := by
  rw [h.length, requiredLength, SizedEdge.leastSpan]
  cases hl : e.hasLabel
  case false =>
    simp only [hk, Bool.false_eq_true, and_false, if_false]
    omega
  case true =>
    simp only [hk, and_self, if_true]
    omega

namespace RawLayout

-- What the ranks of a layout satisfy. The oriented edges are those of the graph, each with its ends in drawing
-- order, and real edges drawn against their direction are the reversed ones.
structure TightlyRanked (nodes : List (SizedNode α)) (edges : List (SizedEdge α)) (raw : RawLayout α) : Prop where
  listed : raw.ranks.map (·.1) = nodes.map (·.id)
  zero : nodes ≠ [] → ∃ n ∈ nodes, Ranking.rank raw.ranks n.id = 0
  forwards : ∀ k e, edges[k]? = some e → e.kind = .real → e.source ≠ e.target → k ∉ raw.reversed →
    e.leastSpan ≤ (Ranking.rank raw.ranks e.target : Int) - Ranking.rank raw.ranks e.source
  backwards : ∀ k e, edges[k]? = some e → e.kind = .real → e.source ≠ e.target → k ∈ raw.reversed →
    e.leastSpan ≤ (Ranking.rank raw.ranks e.source : Int) - Ranking.rank raw.ranks e.target
  oriented : ∀ k e, edges[k]? = some e → e.source ≠ e.target → ∃ o ∈ orientedOf nodes edges,
    o.index = k ∧ OrientationOf e o ∧ (e.kind = .real → (o.isReversed = true ↔ k ∈ raw.reversed))
  unoriented : ∀ o ∈ orientedOf nodes edges, ∃ e, edges[o.index]? = some e ∧ OrientationOf e o
  below : ∀ v, (∃ u, Leads (orientedOf nodes edges) u v) → ∃ u, Leads (orientedOf nodes edges) u v ∧
    Ranking.rank raw.ranks u + largestLength (orientedOf nodes edges) u v = Ranking.rank raw.ranks v
  top : ∀ u, (∃ v, Leads (orientedOf nodes edges) u v) → (∀ w, ¬Leads (orientedOf nodes edges) w u) →
    ∃ v, Leads (orientedOf nodes edges) u v ∧
      Ranking.rank raw.ranks u + largestLength (orientedOf nodes edges) u v = Ranking.rank raw.ranks v

theorem tightlyRanked_solve (hw : WellFormed nodes edges (forest [] groups)) (hn : nodes ≠ []) (sweeps : Nat)
    (spacing : Spacing α) : TightlyRanked nodes edges
      ((Solution.solve sweeps nodes edges spacing (forest [] groups)).toRaw nodes edges spacing.selfLoop) := by
  let raw := (Solution.solve sweeps nodes edges spacing (forest [] groups)).toRaw nodes edges spacing.selfLoop
  have hreversed : raw.reversed =
      ((chainsOf nodes edges spacing (forest [] groups)).filter (·.isReversed)).map (·.edge) := rfl
  obtain ⟨f, hf, ht, hz⟩ := Ranking.exists_ofEdges_eq hw.isDag
  have hranks : raw.ranks = Ranking.ofFunction (nodes.map (·.id)) f := hf
  have rank_eq {v : String} (hv : v ∈ nodes.map (·.id)) : Ranking.rank raw.ranks v = f v := by
    rw [hranks, Ranking.rank_ofFunction hv]
  have ends {u v} (h : Leads (orientedOf nodes edges) u v) :
      Ranking.rank raw.ranks u = f u ∧ Ranking.rank raw.ranks v = f v := by
    obtain ⟨o, ho, rfl, rfl⟩ := h
    exact ⟨rank_eq (hw.isDag.upper_mem o ho), rank_eq (hw.isDag.lower_mem o ho)⟩
  have oriented (k : Nat) (e : SizedEdge α) (he : edges[k]? = some e) (hne : e.source ≠ e.target) :
      ∃ o ∈ orientedOf nodes edges, o.index = k ∧ OrientationOf e o ∧
        (e.kind = .real → (o.isReversed = true ↔ k ∈ raw.reversed)) := by
    obtain ⟨o, ho, hk⟩ : ∃ o ∈ orientedOf nodes edges, o.index = k := exists_mem_all he hne
    have hof := orientationOf_of_mem_all ho (hk ▸ he)
    refine ⟨o, ho, hk, hof, fun hkind => ?_⟩
    rw [hreversed, ← hk]
    exact (Chain.mem_reversed_iff hw ho (hof.kind.trans hkind)).symm
  have span {o : OrientedEdge String} {e : SizedEdge α} (ho : o ∈ orientedOf nodes edges) (hof : OrientationOf e o)
      (hk : e.kind = .real) :
      e.leastSpan ≤ (Ranking.rank raw.ranks o.lower : Int) - Ranking.rank raw.ranks o.upper := by
    have := ht.add_length_le o ho
    have := ends ⟨o, ho, rfl, rfl⟩
    rw [← hof.length_eq hk]
    omega
  refine ⟨?listed, ?zero, ?forwards, ?backwards, oriented, fun o ho => exists_edge_of_mem_all ho, ?below, ?top⟩
  case listed =>
    change raw.ranks.map (·.1) = _
    simp [hranks, Ranking.ofFunction]
  case zero =>
    intro _
    obtain ⟨v, hv, hfv⟩ := hz (by simpa using hn)
    obtain ⟨n, hn, hnv⟩ := List.mem_map.mp hv
    exact ⟨n, hn, by rw [hnv, ← hfv]; exact rank_eq hv⟩
  case forwards =>
    intro k e he hk hne hr
    obtain ⟨o, ho, _, hof, hrev⟩ := oriented k e he hne
    rcases hof.ends with ⟨hu, hl, _⟩ | ⟨_, _, ht⟩
    case inl => exact hu ▸ hl ▸ span ho hof hk
    case inr => exact absurd ((hrev hk).mp ht) hr
  case backwards =>
    intro k e he hk hne hr
    obtain ⟨o, ho, _, hof, hrev⟩ := oriented k e he hne
    rcases hof.ends with ⟨_, _, hf⟩ | ⟨hu, hl, _⟩
    case inl => exact absurd ((hrev hk).mpr hr) (by simp [hf])
    case inr => exact hu ▸ hl ▸ span ho hof hk
  case below =>
    rintro v ⟨u, h⟩
    obtain ⟨w, hwv, he⟩ := exists_largestLength_below ht h
    exact ⟨w, hwv, by rw [(ends hwv).left, (ends hwv).right, he]⟩
  case top =>
    rintro u ⟨v, h⟩ hu
    obtain ⟨w, huw, he⟩ := exists_largestLength_top ht h hu
    exact ⟨w, huw, by rw [(ends huw).left, (ends huw).right, he]⟩

-- Every well formed graph has a layout, and its ranks are tight.
theorem ofGraph_tightlyRanked (hw : WellFormed nodes edges (forest [] groups)) (sweeps : Nat) (spacing : Spacing α) :
    ∃ raw, ofGraph sweeps nodes edges spacing groups = .ok raw ∧ TightlyRanked nodes edges raw := by
  by_cases hn : nodes = []
  case neg =>
    refine ⟨_, ?_, tightlyRanked_solve hw hn sweeps spacing⟩
    simp [ofGraph, hn, Register.error?_eq_none_iff.mpr hw]
  case pos =>
    have no_edge {k : Nat} {e : SizedEdge α} (he : edges[k]? = some e) : False := by
      simpa [hn] using (hw.ends_mem e (List.mem_of_getElem? he)).left
    have no_pair {u v : String} (h : Leads (orientedOf nodes edges) u v) : False := by
      obtain ⟨o, ho, _⟩ := h
      obtain ⟨e, he, _⟩ := exists_edge_of_mem_all ho
      exact no_edge he
    refine ⟨{}, by simp [ofGraph, hn], ?_⟩
    exact ⟨by simp [hn], fun h => absurd hn h, fun _ _ he => (no_edge he).elim, fun _ _ he => (no_edge he).elim,
      fun _ _ he => (no_edge he).elim, fun o ho => exists_edge_of_mem_all ho,
      fun _ h => h.elim fun _ h => (no_pair h).elim, fun _ h => h.elim fun _ h => (no_pair h).elim⟩

-- The edge from "c" back to "a" closes a cycle, and is drawn against its direction.
theorem ofGraph_tightlyRanked_nestedGroups :
    WellFormed Arrangement.nestedGroups.nodes Arrangement.nestedGroups.edges
      (forest [] Arrangement.nestedGroups.groups) ∧
    ∃ raw, ofGraph 4 Arrangement.nestedGroups.nodes Arrangement.nestedGroups.edges
        Arrangement.nestedGroups.spacing Arrangement.nestedGroups.groups = .ok raw ∧
      TightlyRanked Arrangement.nestedGroups.nodes Arrangement.nestedGroups.edges raw := by
  have hw := Register.error?_eq_none_iff.mp (by decide : Register.error? Arrangement.nestedGroups.nodes
    Arrangement.nestedGroups.edges (forest [] Arrangement.nestedGroups.groups) = none)
  exact ⟨hw, ofGraph_tightlyRanked hw 4 Arrangement.nestedGroups.spacing⟩

end RawLayout

end LayeredDiagram
