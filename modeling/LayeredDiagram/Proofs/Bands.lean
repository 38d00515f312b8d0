import LayeredDiagram.Layout.Vertical
import Mathlib.Data.List.Basic
/-!
The bands of the ranks. Every rank with items has one band, and bands follow each other in the order of their
ranks.
-/

namespace LayeredDiagram.RankBand

variable {α : Type} {layers : Layers α} {layer : List (Item α)} {r : Nat} {i : Item α}

-- The ranks that hold items, with their items.
def present (layers : Layers α) : List (Nat × List (Item α)) :=
  (layers.zipIdx.filter fun (layer, _) => !layer.isEmpty).map fun (layer, r) => (r, layer)

theorem mem_present_iff : (r, layer) ∈ present layers ↔ layers[r]? = some layer ∧ layer ≠ [] := by
  simp only [present, List.mem_map, List.mem_filter, Prod.exists, List.mk_mem_zipIdx_iff_getElem?,
    Prod.mk.injEq, Bool.not_eq_true', List.isEmpty_eq_false_iff]
  constructor
  · rintro ⟨_, _, h, rfl, rfl⟩
    exact h
  · intro h
    exact ⟨layer, r, h, rfl, rfl⟩

variable [Scalar α] {spacing : Spacing α} {span : String → Nat × Nat}

theorem map_rank_stack (above : RankBand α) (closed : Nat) (rest : List (Nat × List (Item α))) :
    (stack spacing span above closed rest).map (·.rank) = rest.map (·.1) := by
  induction rest generalizing above closed
  case nil => rfl
  case cons next rest hi => simp [stack, hi]

-- The bands of ranks with items.
def stackAll (spacing : Spacing α) (span : String → Nat × Nat) : List (Nat × List (Item α)) → List (RankBand α)
  | [] => []
  | (rank, layer) :: rest =>
    let first := ⟨rank, headers spacing span layer + tallest layer / 2, tallest layer⟩
    first :: stack spacing span first (closing span layer) rest

theorem ofLayers_eq : ofLayers spacing span layers = stackAll spacing span (present layers) := by
  unfold ofLayers stackAll
  rfl

theorem map_rank_ofLayers :
    (ofLayers spacing span layers).map (·.rank) = (present layers).map (·.1) := by
  rw [ofLayers_eq]
  cases present layers
  case nil => rfl
  case cons next rest => simp [stackAll, map_rank_stack]

-- A rank with items has a band.
theorem exists_mem_ofLayers (hr : layers[r]? = some layer) (hi : i ∈ layer) :
    ∃ b ∈ ofLayers spacing span layers, b.rank = r := by
  have hm : (r, layer) ∈ present layers := mem_present_iff.mpr ⟨hr, List.ne_nil_of_mem hi⟩
  have hb : r ∈ (ofLayers spacing span layers).map (·.rank) := by
    rw [map_rank_ofLayers]
    exact List.mem_map.mpr ⟨_, hm, rfl⟩
  exact List.mem_map.mp hb

end LayeredDiagram.RankBand
