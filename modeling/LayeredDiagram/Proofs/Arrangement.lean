import LayeredDiagram.Proofs.Items
import LayeredDiagram.Proofs.LayerOrder
/-!
The arrangement of a well formed graph. Every rank holds exactly the items that were made for it, the items
of every group stand next to each other, and groups side by side come in one order on all ranks.
-/

namespace LayeredDiagram

open LayeredDiagram.Group Layers

variable {α : Type} {entries : List Entry} {i j : Item α} {r : Nat}

-- The items of a group stand next to each other.
def Contiguous (g : String) (layer : List (Item α)) : Prop :=
  ∃ l₁ l₂ l₃, layer = l₁ ++ l₂ ++ l₃ ∧ (∀ i ∈ l₂, g ∈ i.path) ∧ ∀ i ∈ l₁ ++ l₃, g ∉ i.path

-- The items of one group stand to the left of those of another.
def LeftOf (g h : String) (layer : List (Item α)) : Prop :=
  layer.Pairwise fun i j => ¬(h ∈ i.path ∧ g ∈ j.path)

-- Items in places of a forest, arranged on their ranks with contiguous groups in one order of places.
structure Arranged (entries : List Entry) (place : String → Nat) (a : Arrangement α) : Prop where
  forest : IsForest entries
  slot_nodup : (a.stock.items.map (·.slot)).Nodup
  isPath : ∀ i ∈ a.stock.items, IsPath entries i.path
  perm : ∀ r, (a.layers[r]?.getD []).Perm (a.stock.items.filter (·.rank == r))
  grouped : ∀ layer ∈ a.layers, Grouped place layer
  ranks_ne_nil : ∀ e ∈ entries, Item.ranksOf a.stock.items e.id ≠ []
  gapless : ∀ e ∈ entries, Stock.Gapless (Item.ranksOf a.stock.items e.id)
  segments : ∀ s ∈ a.stock.segments,
    s.upper ∈ a.stock.items ∧ s.lower ∈ a.stock.items ∧ s.lower.rank = s.upper.rank + 1

namespace Arranged

variable {place : String → Nat} {a : Arrangement α} {layer : List (Item α)} {e f : Entry}

theorem mem_layer_iff (h : Arranged entries place a) :
    i ∈ a.layers[r]?.getD [] ↔ i ∈ a.stock.items ∧ i.rank = r := by
  simp [(h.perm r).mem_iff]

theorem mem_items (h : Arranged entries place a) (hl : layer ∈ a.layers) (hi : i ∈ layer) :
    i ∈ a.stock.items := by
  have ⟨r, hr⟩ := List.getElem?_of_mem hl
  exact (h.mem_layer_iff (r := r).mp (by simpa [hr] using hi)).left

theorem layer_eq (h : Arranged entries place a) (hl : layer ∈ a.layers) (hi : i ∈ layer) :
    a.layers[i.rank]?.getD [] = layer := by
  have ⟨r, hr⟩ := List.getElem?_of_mem hl
  have hir := (h.mem_layer_iff (r := r).mp (by simpa [hr] using hi)).right
  rw [hir, hr, Option.getD_some]

theorem exists_layer (h : Arranged entries place a) (hi : i ∈ a.stock.items) :
    ∃ layer ∈ a.layers, a.layers[i.rank]? = some layer ∧ i ∈ layer := by
  have hm := h.mem_layer_iff.mpr ⟨hi, rfl⟩
  cases hr : a.layers[i.rank]?
  case none => simp [hr] at hm
  case some layer => exact ⟨layer, List.mem_of_getElem? hr, rfl, by simpa [hr] using hm⟩

theorem mem_path_iff (h : Arranged entries place a) (hi : i ∈ a.stock.items) (he : e ∈ entries) :
    e.id ∈ i.path ↔ e.path <+: i.path :=
  h.forest.mem_iff_path_prefix (h.isPath i hi) he

theorem contiguous (h : Arranged entries place a) (he : e ∈ entries) (hl : layer ∈ a.layers) :
    Contiguous e.id layer := by
  have ⟨l₁, l₂, l₃, heq, h₂, h₁₃⟩ :=
    ((h.grouped layer hl).clustered e.path (h.forest.path_ne_nil he)).exists_eq_append
  have mem {i} (hi : i ∈ l₁ ++ l₂ ++ l₃) := h.mem_path_iff (h.mem_items hl (heq ▸ hi)) he
  refine ⟨l₁, l₂, l₃, heq, fun i hi => ?_, fun i hi => ?_⟩
  · exact (mem (by simp [hi])).mpr (h₂ i hi)
  · rw [mem (by grind)]
    exact h₁₃ i hi

-- Otherwise an item of the second group stands to the left of one of the first.
theorem leftOf (h : Arranged entries place a) (he : e ∈ entries) (hf : f ∈ entries) (hn : e.id ≠ f.id)
    (hp : e.path.dropLast = f.path.dropLast) (hpl : place e.id ≤ place f.id) (hl : layer ∈ a.layers) :
    LeftOf e.id f.id layer := by
  have ⟨q, hq⟩ := h.forest.path_eq_append he
  have ⟨q', hq'⟩ := h.forest.path_eq_append hf
  obtain rfl : q = q' := by simpa [hq, hq'] using hp
  refine (h.grouped layer hl).sorted.imp_of_mem fun {i j} hi hj hs ⟨hfi, hej⟩ => ?_
  rw [h.mem_path_iff (h.mem_items hl hi) hf, hq'] at hfi
  rw [h.mem_path_iff (h.mem_items hl hj) he, hq] at hej
  exact absurd (hs q _ _ hfi hej hn.symm) (Nat.not_lt.mpr hpl)

section Span

variable (hA : Arranged entries place a)
include hA

theorem exists_first (he : e ∈ entries) :
    ∃ i ∈ a.stock.items, e.id ∈ i.path ∧ i.rank = (a.stock.span e.id).1 := by
  obtain ⟨r, hr⟩ := Option.isSome_iff_exists.mp (List.isSome_min?_of_ne_nil (hA.ranks_ne_nil e he))
  obtain ⟨i, hi, hg, hir⟩ := Stock.mem_ranksOf_iff.mp (List.min?_eq_some_iff.mp hr).left
  exact ⟨i, hi, hg, by simp only [Stock.span, hr, Option.getD_some, hir]⟩

theorem exists_last (he : e ∈ entries) :
    ∃ i ∈ a.stock.items, e.id ∈ i.path ∧ i.rank = (a.stock.span e.id).2 := by
  obtain ⟨r, hr⟩ := Option.isSome_iff_exists.mp (List.isSome_max?_of_ne_nil (hA.ranks_ne_nil e he))
  obtain ⟨i, hi, hg, hir⟩ := Stock.mem_ranksOf_iff.mp (List.max?_eq_some_iff.mp hr).left
  exact ⟨i, hi, hg, by simp only [Stock.span, hr, Option.getD_some, hir]⟩

theorem span_le (he : e ∈ entries) (hi : i ∈ a.stock.items) (hg : e.id ∈ i.path) :
    (a.stock.span e.id).1 ≤ i.rank ∧ i.rank ≤ (a.stock.span e.id).2 := by
  obtain ⟨first, hf⟩ := Option.isSome_iff_exists.mp (List.isSome_min?_of_ne_nil (hA.ranks_ne_nil e he))
  obtain ⟨last, hl⟩ := Option.isSome_iff_exists.mp (List.isSome_max?_of_ne_nil (hA.ranks_ne_nil e he))
  have hr := Stock.mem_ranksOf_iff.mpr ⟨i, hi, hg, rfl⟩
  simp only [Stock.span, hf, hl, Option.getD_some]
  exact ⟨(List.min?_eq_some_iff.mp hf).right _ hr, (List.max?_eq_some_iff.mp hl).right _ hr⟩

-- A group has items on all ranks that it spans.
theorem exists_item_of_span (he : e ∈ entries) (hf : (a.stock.span e.id).1 ≤ r) (hl : r ≤ (a.stock.span e.id).2) :
    ∃ i ∈ a.stock.items, e.id ∈ i.path ∧ i.rank = r := by
  have ⟨i, hi, hgi, hir⟩ := hA.exists_first he
  have ⟨j, hj, hgj, hjr⟩ := hA.exists_last he
  exact Stock.mem_ranksOf_iff.mp (hA.gapless e he _ (Stock.mem_ranksOf_iff.mpr ⟨i, hi, hgi, rfl⟩) _
    (Stock.mem_ranksOf_iff.mpr ⟨j, hj, hgj, rfl⟩) r (hir ▸ hf) (hjr ▸ hl))

end Span

end Arranged

namespace Arrangement

variable [Scalar α] {nodes : List (SizedNode α)} {edges : List (SizedEdge α)} {groups : List Group}

theorem exists_arranged (hw : WellFormed nodes edges (forest [] groups)) (sweeps : Nat)
    (spacing : Spacing α) :
    ∃ place, Arranged (forest [] groups) place (ofGraph sweeps nodes edges spacing (forest [] groups)) := by
  have hf := isForest_forest hw.groups_nodup
  have hp : ∀ i ∈ (Stock.ofNodes nodes edges spacing (forest [] groups)).items, IsPath (forest [] groups) i.path :=
    fun _ => Stock.isPath_of_mem_items hf
  have ⟨place, hg⟩ := exists_grouped (s := Stock.ofNodes nodes edges spacing (forest [] groups)) hf hp sweeps
  exact ⟨place, {
    forest := hf
    slot_nodup := Stock.items_slot_nodup hw
    isPath := hp
    perm := fun r => Stock.getElem?_layers (α := α) _ r ▸ (ofStock_rearranged sweeps _).perm r
    grouped := hg
    ranks_ne_nil := fun _ he => Stock.ranksOf_ne_nil hf he
    gapless := fun _ he => Stock.gapless hf he
    segments := fun _ hs => Stock.ends_of_mem_segments hw hs
  }⟩

theorem ofGraph_layers (hv : Register.error? nodes edges (forest [] groups) = none) (sweeps : Nat)
    (spacing : Spacing α) :
    let a := ofGraph sweeps nodes edges spacing (forest [] groups)
    (∀ r : Nat, (a.layers[r]?.getD []).Perm (a.stock.items.filter (·.rank == r))) ∧
    (a.stock.items.map (·.slot)).Nodup ∧
    (∀ e ∈ forest [] groups, ∀ layer ∈ a.layers, Contiguous e.id layer) ∧
    ∀ e ∈ forest [] groups, ∀ f ∈ forest [] groups, e.id ≠ f.id → e.path.dropLast = f.path.dropLast →
      (∀ layer ∈ a.layers, LeftOf e.id f.id layer) ∨ ∀ layer ∈ a.layers, LeftOf f.id e.id layer := by
  have ⟨place, h⟩ := exists_arranged (Register.error?_eq_none_iff.mp hv) sweeps spacing
  refine ⟨h.perm, h.slot_nodup, fun e he layer hl => h.contiguous he hl, fun e he f hf hn hp => ?_⟩
  cases Nat.le_total (place e.id) (place f.id)
  case inl hpl => exact .inl fun layer hl => h.leftOf he hf hn hp hpl hl
  case inr hpl => exact .inr fun layer hl => h.leftOf hf he hn.symm hp.symm hpl hl

-- One group inside another, a group beside them, edges between them and a loop.
def nestedGroups : SizedGraph Rat where
  nodes := [{ id := "a", width := 40, height := 20 }, { id := "b", width := 40, height := 20 },
    { id := "c", width := 50, height := 30 }]
  edges := [.labelled "a" "b" (some "calls") 30 10, .labelled "b" "c" none 0 0,
    .labelled "b" "b" (some "again") 30 10, .labelled "c" "a" none 0 0]
  groups := [{ id := "outer", members := ["a"], children := [{ id := "inner", members := ["b"] }] },
    { id := "other", members := ["c"] }]
  spacing := .standard
  margin := ⟨10, 10⟩

theorem ofGraph_layers_nestedGroups :
    Register.error? nestedGroups.nodes nestedGroups.edges (forest [] nestedGroups.groups) = none ∧
    ∀ layer ∈ (ofGraph 4 nestedGroups.nodes nestedGroups.edges nestedGroups.spacing
      (forest [] nestedGroups.groups)).layers, ∀ e ∈ forest [] nestedGroups.groups, Contiguous e.id layer := by
  have hv : Register.error? nestedGroups.nodes nestedGroups.edges (forest [] nestedGroups.groups) = none := by
    decide
  have ⟨_, _, hc, _⟩ := ofGraph_layers hv 4 nestedGroups.spacing
  exact ⟨hv, fun layer hl e he => hc e he layer hl⟩

end Arrangement

end LayeredDiagram
