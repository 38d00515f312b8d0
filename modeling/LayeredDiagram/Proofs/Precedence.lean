import LayeredDiagram.Proofs.Placement
/-!
Ordering edges put their sources above their targets. Whatever real edges there are, only a cycle of ordering edges
can keep one of them from being honoured: then its target is at least as many ranks below its source as it asks
for, and the boxes of the two are drawn with the rank gap between them.
-/

namespace LayeredDiagram

open LayeredDiagram.Group OrientedEdge

section Ranks

variable {α : Type} [Scalar α] {nodes : List (SizedNode α)} {edges : List (SizedEdge α)} {groups : List Group}
variable {entries : List Entry} {e : SizedEdge α}

-- An ordering edge between different nodes that is on no cycle of ordering edges.
structure SizedEdge.Binding (edges : List (SizedEdge α)) (e : SizedEdge α) : Prop where
  mem : e ∈ edges
  kind : e.kind = .ordering
  source_ne : e.source ≠ e.target
  not_back : ¬Relation.ReflTransGen (Orders edges) e.target e.source

theorem OrientedEdge.requiredLength_of_ordering (hk : e.kind = .ordering) :
    (requiredLength e : Int) = max 1 e.minlen := by
  simp only [requiredLength, hk, reduceCtorEq, false_and, if_false]
  omega

theorem WellFormed.rank_add_le_of_binding (hw : WellFormed nodes edges entries) (h : e.Binding edges) :
    ((ranksOf nodes edges).rank e.source : Int) + max 1 e.minlen ≤ (ranksOf nodes edges).rank e.target := by
  obtain ⟨o, ho, hu, hl, hlen⟩ := exists_forwards (nodes.map (·.id)) h.mem h.kind h.source_ne h.not_back
  have hle := Ranking.rank_add_length_le hw.isDag ho
  rw [hu, hl, hlen] at hle
  rw [← requiredLength_of_ordering h.kind]
  exact_mod_cast hle

theorem WellFormed.rank_lt_of_binding (hw : WellFormed nodes edges entries) (h : e.Binding edges) :
    (ranksOf nodes edges).rank e.source < (ranksOf nodes edges).rank e.target := by
  have := hw.rank_add_le_of_binding h
  omega

theorem RawLayout.ofGraph_rank_add_le (hw : WellFormed nodes edges (forest [] groups)) (sweeps : Nat)
    (spacing : Spacing α) : ∃ raw, ofGraph sweeps nodes edges spacing groups = .ok raw ∧
      ∀ e : SizedEdge α, e.Binding edges →
        (Ranking.rank raw.ranks e.source : Int) + max 1 e.minlen ≤ Ranking.rank raw.ranks e.target := by
  by_cases hn : nodes = []
  case pos =>
    refine ⟨{}, by simp [ofGraph, hn], fun e h => ?_⟩
    simpa [hn] using (hw.ends_mem e h.mem).left
  case neg =>
    exact ⟨_, ofGraph_eq_solve hn hw sweeps spacing, fun e h => hw.rank_add_le_of_binding h⟩

end Ranks

section Boxes

variable {g : SizedGraph Rat} {place : String → Nat} {s : Solution Rat} {p : PlacedGraph Rat} {n m : SizedNode Rat}

-- Boxes of different ranks have the rank gap between them.
theorem Stacked.bottom_add_rank_le_top (hs : Stacked g place s) (hn : n ∈ g.nodes) (hm : m ∈ g.nodes)
    (hr : (ranksOf g.nodes g.edges).rank n.id < (ranksOf g.nodes g.edges).rank m.id) :
    (g.nodeBounds s n).bottom + g.spacing.rank ≤ (g.nodeBounds s m).top := by
  have hin := hs.itemOf_mem hn
  have him := hs.itemOf_mem hm
  have hb := hs.arranged.bandBottom_le_bandTop hs.spacing_nonneg hs.height_nonneg hin him hr
  have hc := hs.closing_nonneg (g.itemOf n).rank
  have hh := hs.headers_nonneg (g.itemOf m).rank
  have hbelow := hs.room_le_bandBottom hin
  have habove := hs.bandTop_le_room him
  have hbottom : (g.nodeBounds s n).bottom = (s.room (g.itemOf n)).bottom := rfl
  have htop : (g.nodeBounds s m).top = (s.room (g.itemOf m)).top := rfl
  rw [hbottom, htop]
  linarith

-- One box is above another with at least a gap between them, and both are drawn.
def PlacedGraph.DrawsAbove (p : PlacedGraph Rat) (gap : Rat) (upper lower : String) : Prop :=
  (∃ d ∈ p.nodes, d.id = upper) ∧ (∃ d ∈ p.nodes, d.id = lower) ∧
    ∀ d ∈ p.nodes, ∀ d' ∈ p.nodes, d.id = upper → d'.id = lower → d.bottom + gap ≤ d'.y

theorem Drawn.drawsAbove {dx dy : Rat} (h : Drawn g s dx dy p) (hs : Stacked g place s) (hn : n ∈ g.nodes)
    (hm : m ∈ g.nodes) (hr : (ranksOf g.nodes g.edges).rank n.id < (ranksOf g.nodes g.edges).rank m.id) :
    p.DrawsAbove g.spacing.rank n.id m.id := by
  obtain ⟨d, hd, hdn, _⟩ := h.exists_drawn_node hn
  obtain ⟨d', hd', hdm, _⟩ := h.exists_drawn_node hm
  refine ⟨⟨d, hd, hdn⟩, ⟨d', hd', hdm⟩, fun d hd d' hd' hdn hdm => ?_⟩
  obtain ⟨n', hn', hid, hb⟩ := h.exists_node hd
  obtain ⟨m', hm', hid', hb'⟩ := h.exists_node hd'
  have hr' : (ranksOf g.nodes g.edges).rank n'.id < (ranksOf g.nodes g.edges).rank m'.id := by
    rwa [← hid, ← hid', hdn, hdm]
  have hle := hs.bottom_add_rank_le_top hn' hm' hr'
  have hbottom : d.bottom = (g.nodeBounds s n').bottom + dy := congrArg Bounds.bottom hb
  have htop : d'.y = (g.nodeBounds s m').top + dy := congrArg Bounds.top hb'
  rw [hbottom, htop]
  linarith

theorem SizedGraph.exists_layout_drawsAbove (hw : WellFormed g.nodes g.edges (forest [] g.groups))
    (hd : g.direction = "TB") (hs : ∀ q ∈ g.spacing.lengths, 0 ≤ q) (hh : ∀ n ∈ g.nodes, 0 ≤ n.height)
    (sweeps : Nat) : ∃ p, g.layout sweeps = .ok p ∧
      ∀ e : SizedEdge Rat, e.Binding g.edges → p.DrawsAbove g.spacing.rank e.source e.target := by
  by_cases hn : g.nodes = []
  case pos =>
    refine ⟨{ width := 0, height := 0 }, by simp [layout, hd, hn], fun e h => ?_⟩
    simpa [hn] using (hw.ends_mem e h.mem).left
  case neg =>
    obtain ⟨p, hp⟩ := exists_layout hd hn hw sweeps
    obtain ⟨_, _, rfl⟩ := layout_eq hp hn
    obtain ⟨place, hst⟩ := exists_stacked hw hs hh sweeps
    obtain ⟨dx, dy, hdrawn⟩ := exists_drawn hst
    refine ⟨_, hp, fun e h => ?_⟩
    obtain ⟨hsource, htarget⟩ := hw.ends_mem e h.mem
    obtain ⟨n, hn, hns⟩ := List.mem_map.mp hsource
    obtain ⟨m, hm, hmt⟩ := List.mem_map.mp htarget
    have hr := hw.rank_lt_of_binding h
    rw [← hns, ← hmt] at hr ⊢
    exact hdrawn.drawsAbove hst hn hm hr

end Boxes

namespace SizedGraph

-- In ranks as in the drawing, whatever the real edges are.
theorem binding_honoured (sweeps : Nat) :
    (∀ {α : Type} [Scalar α] (nodes : List (SizedNode α)) (edges : List (SizedEdge α)) (groups : List Group)
      (spacing : Spacing α), WellFormed nodes edges (forest [] groups) →
      ∃ raw, RawLayout.ofGraph sweeps nodes edges spacing groups = .ok raw ∧ ∀ e : SizedEdge α, e.Binding edges →
        (Ranking.rank raw.ranks e.source : Int) + max 1 e.minlen ≤ Ranking.rank raw.ranks e.target) ∧
    ∀ g : SizedGraph Rat, WellFormed g.nodes g.edges (forest [] g.groups) → g.direction = "TB" →
      (∀ q ∈ g.spacing.lengths, 0 ≤ q) → (∀ n ∈ g.nodes, 0 ≤ n.height) →
      ∃ p, g.layout sweeps = .ok p ∧
        ∀ e : SizedEdge Rat, e.Binding g.edges → p.DrawsAbove g.spacing.rank e.source e.target :=
  ⟨fun _ _ _ spacing hw => RawLayout.ofGraph_rank_add_le hw sweeps spacing,
    fun _ hw hd hs hh => exists_layout_drawsAbove hw hd hs hh sweeps⟩

-- A heavy real edge points against the ordering edge from "a" to "b", and two other ordering edges contradict each
-- other.
def contested : SizedGraph Rat where
  nodes := [{ id := "b", width := 40, height := 20 }, { id := "a", width := 40, height := 30 },
    { id := "c", width := 40, height := 20 }]
  edges := [{ SizedEdge.plain "b" "a" .real with weight := 100 }, .ordering "a" "c" 1, .ordering "c" "a" 1,
    { SizedEdge.ordering "a" "b" 1 with minlen := 2 }]
  groups := []
  spacing := .standard
  margin := ⟨0, 0⟩

theorem binding_contested : ({ SizedEdge.ordering "a" "b" 1 with minlen := 2 } : SizedEdge Rat).Binding contested.edges where
  mem := by simp [contested]
  kind := rfl
  source_ne := by simp [SizedEdge.ordering, SizedEdge.plain]
  not_back h := by
    -- no ordering edge leaves "b"
    rcases Relation.ReflTransGen.cases_head h with he | ⟨v, ⟨e, he, hk, hs, _⟩, _⟩
    · simp [SizedEdge.ordering, SizedEdge.plain] at he
    · simp only [contested, List.mem_cons, List.not_mem_nil, or_false] at he
      rcases he with rfl | rfl | rfl | rfl <;> simp [SizedEdge.ordering, SizedEdge.plain] at hk hs

theorem binding_honoured_contested : ∃ p, contested.layout 4 = .ok p ∧ p.DrawsAbove 50 "a" "b" ∧
    ∃ raw, RawLayout.ofGraph 4 contested.nodes contested.edges contested.spacing [] = .ok raw ∧
      (Ranking.rank raw.ranks "a" : Int) + 2 ≤ Ranking.rank raw.ranks "b" := by
  have hw := Register.error?_eq_none_iff.mp (by decide : Register.error? contested.nodes contested.edges
    (forest [] contested.groups) = none)
  have hs : ∀ q ∈ contested.spacing.lengths, 0 ≤ q := by simp [contested, Spacing.standard, Spacing.lengths]
  have hh : ∀ n ∈ contested.nodes, 0 ≤ n.height := by simp [contested]
  obtain ⟨hranks, hboxes⟩ := binding_honoured 4
  obtain ⟨raw, hraw, hle⟩ := hranks _ _ _ contested.spacing hw
  obtain ⟨p, hp, habove⟩ := hboxes contested hw rfl hs hh
  exact ⟨p, hp, habove _ binding_contested, raw, hraw, hle _ binding_contested⟩

end SizedGraph

end LayeredDiagram
