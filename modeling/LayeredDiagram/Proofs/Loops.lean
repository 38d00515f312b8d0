import LayeredDiagram.Layout.Item
/-!
The loops of a graph. Every real edge from a node to itself is placed once, beside its node.
-/

namespace LayeredDiagram.Loop

variable {α : Type} [Scalar α] {edges : List (SizedEdge α)} {spacing : Spacing α} {e : SizedEdge α} {l : Loop α}

-- One more loop, from an edge at an index.
def add (spacing : Spacing α) (loops : List (Loop α)) (x : SizedEdge α × Nat) : List (Loop α) :=
  loops ++ [⟨x.2, x.1.source, reach loops x.1.source, reach loops x.1.source + room spacing x.1,
    (ofNode loops x.1.source).length⟩]

theorem all_eq : all spacing edges =
    (edges.zipIdx.filter fun x => x.1.kind = .real && x.1.isLoop).foldl (add spacing) [] :=
  rfl

-- What holds before any loop is placed, and after one more whenever it held before, holds of all loops.
theorem all_induction {P : List (Loop α) → Prop} (hnil : P [])
    (hadd : ∀ loops e k, edges[k]? = some e → e.kind = .real → e.isLoop → P loops → P (add spacing loops (e, k))) :
    P (all spacing edges) := by
  rw [all_eq]
  refine List.foldlRecOn _ _ hnil fun loops h x hx => ?_
  obtain ⟨hx, hk⟩ := List.mem_filter.mp hx
  simp only [Bool.and_eq_true, decide_eq_true_eq] at hk
  exact hadd loops x.1 x.2 (List.mem_zipIdx_iff_getElem?.mp hx) hk.left hk.right h

-- Every loop is placed once.
theorem map_edge_all (spacing : Spacing α) (edges : List (SizedEdge α)) : (all spacing edges).map (·.edge) =
    (edges.zipIdx.filter fun x => x.1.kind = .real && x.1.isLoop).map (·.2) := by
  have map_edge_foldl (es : List (SizedEdge α × Nat)) (loops : List (Loop α)) :
      (es.foldl (add spacing) loops).map (·.edge) = loops.map (·.edge) ++ es.map (·.2) := by
    induction es generalizing loops
    case nil => simp
    case cons x es hi => simp [hi, add]
  rw [all_eq, map_edge_foldl]
  rfl

theorem mem_map_edge_all_iff {k : Nat} : k ∈ (all spacing edges).map (·.edge) ↔
    ∃ e, edges[k]? = some e ∧ e.kind = .real ∧ e.isLoop := by
  simp only [map_edge_all, List.mem_map, List.mem_filter, Bool.and_eq_true, decide_eq_true_eq, Prod.exists,
    List.mem_zipIdx_iff_getElem?]
  constructor
  · rintro ⟨e, _, ⟨he, h⟩, rfl⟩
    exact ⟨e, he, h⟩
  · intro ⟨e, he, h⟩
    exact ⟨e, k, ⟨he, h⟩, rfl⟩

theorem edge_nodup (spacing : Spacing α) (edges : List (SizedEdge α)) : ((all spacing edges).map (·.edge)).Nodup := by
  rw [map_edge_all]
  refine List.Nodup.sublist (List.filter_sublist.map _) ?_
  rw [List.zipIdx_map_snd]
  exact List.nodup_range'

-- Where a loop comes from, and how far out it goes.
theorem exists_edge_of_mem_all (h : l ∈ all spacing edges) : ∃ e, edges[l.edge]? = some e ∧ e.kind = .real ∧
    e.isLoop ∧ l.node = e.source ∧ l.outer = l.inner + room spacing e := by
  revert l
  refine all_induction (P := fun loops => ∀ {l}, l ∈ loops → ∃ e, edges[l.edge]? = some e ∧ e.kind = .real ∧
    e.isLoop ∧ l.node = e.source ∧ l.outer = l.inner + room spacing e) (by simp) fun loops e k he hk hl hloops l hm => ?_
  cases List.mem_append.mp hm
  case inl hm => exact hloops hm
  case inr hm =>
    obtain rfl := List.mem_singleton.mp hm
    exact ⟨e, he, hk, hl, rfl, rfl⟩

theorem edge_spec (h : l ∈ all spacing edges) (he : edges[l.edge]? = some e) :
    e.kind = .real ∧ e.isLoop ∧ l.node = e.source ∧ l.outer = l.inner + room spacing e := by
  obtain ⟨e', he', hspec⟩ := exists_edge_of_mem_all h
  obtain rfl : e' = e := Option.some.inj (he'.symm.trans he)
  exact hspec

end LayeredDiagram.Loop
