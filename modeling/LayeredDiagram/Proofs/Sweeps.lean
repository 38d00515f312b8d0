import LayeredDiagram.Proofs.Arrangement
import LayeredDiagram.Proofs.Regrouping
/-!
What the sweeps leave, in exact arithmetic. The order with the least count of crossings is kept among the first
arrangement and all sweeps, and all its groups are contiguous. It is then arranged once more by the mean positions
that its groups have now; this changes nothing if and only if groups side by side stand in the order of these means,
and otherwise nothing is said about the count of crossings that comes out.
-/

namespace LayeredDiagram

open LayeredDiagram.Group

namespace Layers

section Clusters

variable {α : Type} [Scalar α] {s : Stock α} {layers : Layers α} {layer : List (Item α)}

-- Rearranged layers in which all groups are contiguous.
structure Tidy (s : Stock α) (layers : Layers α) : Prop where
  rearranged : Rearranged layers s.layers
  clustered : ∀ layer ∈ layers, ∀ p : List String, p ≠ [] → Clustered (fun i => p <+: i.path) layer

theorem clustered_arrange (order : List (String × Nat)) (h : ∀ i ∈ layer, IsPath s.entries i.path) {p : List String}
    (hp : p ≠ []) : Clustered (fun i => p <+: i.path) (arrange order (depth s.entries) 0 layer) :=
  arrange_clustered (q := []) (below_of_isPath h) (List.length_pos_iff.mpr hp)

theorem tidy_arrangeAll (hp : ∀ i ∈ s.items, IsPath s.entries i.path) (h : Rearranged layers s.layers) :
    Tidy s (arrangeAll s.entries layers) where
  rearranged := (arrangeAll_rearranged s.entries layers).trans h
  clustered layer hl p hn := by
    obtain ⟨layer', hl', rfl⟩ := List.mem_map.mp hl
    exact clustered_arrange _ (h.isPath hp hl') hn

theorem Tidy.sortRank (hp : ∀ i ∈ s.items, IsPath s.entries i.path) (h : Tidy s layers)
    (neighbours : Slot → List (Slot × α)) (rank ref : Nat) :
    Tidy s (sortRank s.entries neighbours layers rank ref) where
  rearranged := (sortRank_rearranged neighbours layers rank ref).trans h.rearranged
  clustered layer hl p hn := by
    cases List.mem_or_eq_of_mem_set hl
    case inl hl => exact h.clustered layer hl p hn
    case inr hl =>
      subst hl
      refine clustered_arrange _ (fun i hi => ?_) hn
      -- the items of the rank, sorted by other keys
      have hi := ((List.mergeSort_perm ..).map _).mem_iff.mp hi
      simp only [List.map_map, Function.comp_def, List.zipIdx_map_fst] at hi
      cases hr : layers[rank]?
      case none => simp [hr] at hi
      case some layer =>
        rw [hr, Option.getD_some] at hi
        exact h.rearranged.isPath hp (List.mem_of_getElem? hr) i hi

omit [Scalar α] in
theorem Tidy.foldl {ι : Type} {step : Layers α → ι → Layers α} (hs : ∀ layers i, Tidy s layers → Tidy s (step layers i))
    (is : List ι) (h : Tidy s layers) : Tidy s (is.foldl step layers) := by
  induction is generalizing layers
  case nil => exact h
  case cons i is hi => exact hi (hs _ _ h)

theorem Tidy.sweep (hp : ∀ i ∈ s.items, IsPath s.entries i.path) (h : Tidy s layers) :
    Tidy s (sweep s.entries s.segments layers) :=
  .foldl (fun _ _ h => h.sortRank hp _ _ _) _ (.foldl (fun _ _ h => h.sortRank hp _ _ _) _ h)

-- The layers after some sweeps.
def swept (s : Stock α) (n : Nat) : Layers α :=
  (Layers.sweep s.entries s.segments)^[n] (initial s)

theorem swept_succ (s : Stock α) (n : Nat) : swept s (n + 1) = Layers.sweep s.entries s.segments (swept s n) :=
  Function.iterate_succ_apply' ..

theorem tidy_swept (hp : ∀ i ∈ s.items, IsPath s.entries i.path) (n : Nat) : Tidy s (swept s n) := by
  induction n
  case zero => exact tidy_arrangeAll hp (.refl _)
  case succ n hi => exact swept_succ s n ▸ hi.sweep hp

end Clusters

section Search

variable {s : Stock Rat} {f : Search Rat} {n : Nat}

-- The search after some sweeps: the best layers are those of one of them, with the least count of crossings.
structure Kept (s : Stock Rat) (n : Nat) (f : Search Rat) : Prop where
  current : f.current = swept s n
  best : ∃ k ≤ n, f.best = swept s k
  least : f.least = crossings s.segments f.best
  le : ∀ j ≤ n, f.least ≤ crossings s.segments (swept s j)
  going : ∀ j < n, 1e-9 < crossings s.segments (swept s j)

theorem kept_first (s : Stock Rat) : Kept s 0 ⟨initial s, crossings s.segments (initial s), initial s⟩ where
  current := rfl
  best := ⟨0, le_rfl, rfl⟩
  least := rfl
  le _ hj := (Nat.le_zero.mp hj) ▸ le_rfl
  going _ hj := absurd hj (Nat.not_lt_zero _)

theorem Kept.next (h : Kept s n f) (hl : ¬f.least ≤ 1e-9) :
    let current := sweep s.entries s.segments f.current
    Kept s (n + 1) (if crossings s.segments current < f.least then ⟨current, crossings s.segments current, current⟩
      else { f with current }) := by
  intro current
  have hcurrent : current = swept s (n + 1) := by rw [swept_succ, ← h.current]
  have going : ∀ j < n + 1, 1e-9 < crossings s.segments (swept s j) := fun j hj =>
    (not_le.mp hl).trans_le (h.le j (Nat.lt_succ_iff.mp hj))
  split
  case isTrue hlt =>
    refine ⟨hcurrent, ⟨n + 1, le_rfl, hcurrent⟩, rfl, fun j hj => ?_, going⟩
    cases hj.lt_or_eq
    case inl hj => exact hlt.le.trans (h.le j (Nat.lt_succ_iff.mp hj))
    case inr hj => exact hj ▸ hcurrent ▸ le_rfl
  case isFalse hge =>
    obtain ⟨k, hk, hbest⟩ := h.best
    refine ⟨hcurrent, ⟨k, by omega, hbest⟩, h.least, fun j hj => ?_, going⟩
    cases hj.lt_or_eq
    case inl hj => exact h.le j (Nat.lt_succ_iff.mp hj)
    case inr hj => exact hj ▸ hcurrent ▸ not_lt.mp hge

-- The search ends when the sweeps are used up or no crossings are left.
theorem exists_kept_search (sweeps : Nat) (h : Kept s n f) : ∃ m, n ≤ m ∧ m ≤ n + sweeps ∧
    Kept s m (search s.entries s.segments sweeps f) ∧
    (m = n + sweeps ∨ (search s.entries s.segments sweeps f).least ≤ 1e-9) := by
  induction sweeps generalizing n f
  case zero => exact ⟨n, le_rfl, le_rfl, h, .inl rfl⟩
  case succ sweeps hi =>
    rw [search]
    split
    case isTrue hl => exact ⟨n, le_rfl, Nat.le_add_right .., h, .inr hl⟩
    case isFalse hl =>
      obtain ⟨m, hnm, hm, hkept, hend⟩ := hi (h.next hl)
      exact ⟨m, by omega, by omega, hkept, hend.imp_left fun he => by omega⟩

end Search

section Regroup

variable {s : Stock Rat} {layers : Layers Rat}

-- Groups side by side stand in the order of their places.
def Ordered (s : Stock Rat) (layers : Layers Rat) : Prop :=
  ∀ layer ∈ layers, layer.Pairwise (InOrder (siblingOrder s.entries layers))

-- Arranging tidy layers once more leaves them alone exactly if the order of the means is theirs.
theorem arrangeAll_eq_self_iff (hn : (s.items.map (·.slot)).Nodup) (hp : ∀ i ∈ s.items, IsPath s.entries i.path)
    (h : Tidy s layers) : arrangeAll s.entries layers = layers ↔ Ordered s layers := by
  constructor
  · intro he layer hl
    obtain ⟨layer', hl', rfl⟩ := List.mem_map.mp (he.symm ▸ hl : layer ∈ arrangeAll s.entries layers)
    exact arrange_inOrder (q := []) (below_of_isPath (h.rearranged.isPath hp hl'))
  · intro ho
    rw [arrangeAll]
    conv_rhs => rw [← List.map_id layers]
    refine List.map_congr_left fun layer hl => ?_
    have hnodup : layer.Nodup := by
      obtain ⟨layer', hl', hperm⟩ := h.rearranged.exists_perm_of_mem hl
      obtain ⟨r, _, rfl⟩ := List.mem_map.mp hl'
      exact hperm.nodup_iff.mpr ((List.Nodup.of_map _ hn).filter _)
    exact arrange_eq_self (q := []) (below_of_isPath (h.rearranged.isPath hp hl)) hnodup
      (fun p hp => h.clustered layer hl p (List.length_pos_iff.mp hp)) (ho layer hl)

-- No two groups are side by side.
def Lone (entries : List Entry) : Prop :=
  ∀ e ∈ entries, ∀ f ∈ entries, e.path.dropLast = f.path.dropLast → e.id = f.id

theorem Lone.ordered (hf : IsForest s.entries) (hp : ∀ i ∈ s.items, IsPath s.entries i.path) (hl : Lone s.entries)
    (h : Rearranged layers s.layers) : Ordered s layers := by
  refine fun layer hm => List.pairwise_of_forall_mem_list fun i hi j hj p g k hg hk hne => ?_
  obtain ⟨e, he, rfl, hpe⟩ := hf.exists_of_isPath_concat (hf.isPath_of_prefix (h.isPath hp hm i hi) hg)
  obtain ⟨f, hf', rfl, hpf⟩ := hf.exists_of_isPath_concat (hf.isPath_of_prefix (h.isPath hp hm j hj) hk)
  exact absurd (hl e he f hf' (by rw [hpe, hpf, List.dropLast_concat, List.dropLast_concat])) hne

end Regroup

end Layers

namespace Arrangement

open Layers

variable {nodes : List (SizedNode Rat)} {edges : List (SizedEdge Rat)} {groups : List Group}

-- The kept order is the best of those that were tried, and what is left of it by the last arrangement is the same
-- exactly if the groups have not changed places.
theorem ofGraph_crossings (hv : Register.error? nodes edges (forest [] groups) = none) (sweeps : Nat)
    (spacing : Spacing Rat) :
    let a := ofGraph sweeps nodes edges spacing (forest [] groups)
    let count := crossings a.stock.segments
    ∃ n ≤ sweeps, ∃ k ≤ n,
      (n = sweeps ∨ count (swept a.stock k) ≤ 1e-9) ∧ (∀ j < n, 1e-9 < count (swept a.stock j)) ∧
      (∀ j ≤ n, count (swept a.stock k) ≤ count (swept a.stock j)) ∧
      a.layers = arrangeAll (forest [] groups) (swept a.stock k) ∧
      (a.layers = swept a.stock k ↔ Ordered a.stock (swept a.stock k)) ∧
      (Lone (forest [] groups) → ∀ j ≤ n, count a.layers ≤ count (swept a.stock j)) := by
  have hw := Register.error?_eq_none_iff.mp hv
  have hf := isForest_forest hw.groups_nodup
  intro a count
  have hp : ∀ i ∈ a.stock.items, IsPath (forest [] groups) i.path := fun _ => Stock.isPath_of_mem_items hf
  obtain ⟨n, _, hn, hkept, hend⟩ := exists_kept_search sweeps (kept_first a.stock)
  obtain ⟨k, hk, hbest⟩ := hkept.best
  have hleast : (search a.stock.entries a.stock.segments sweeps
      ⟨initial a.stock, crossings a.stock.segments (initial a.stock), initial a.stock⟩).least = count (swept a.stock k) := by
    rw [hkept.least, hbest]
  have hle : ∀ j ≤ n, count (swept a.stock k) ≤ count (swept a.stock j) := fun j hj => hleast ▸ hkept.le j hj
  have hlayers : a.layers = arrangeAll (forest [] groups) (swept a.stock k) := congrArg (arrangeAll _) hbest
  have hiff : a.layers = swept a.stock k ↔ Ordered a.stock (swept a.stock k) :=
    hlayers ▸ arrangeAll_eq_self_iff (Stock.items_slot_nodup hw) hp (tidy_swept hp k)
  refine ⟨n, by omega, k, hk, ?_, hkept.going, hle, hlayers, hiff, fun hlone j hj => ?_⟩
  · exact hend.imp (fun he => by omega) fun he => hleast ▸ he
  · rw [hiff.mpr (hlone.ordered hf hp (tidy_swept hp k).rearranged)]
    exact hle j hj

-- Two edges that cross as they are given, and a group with no other beside it.
def tangle : SizedGraph Rat where
  nodes := [{ id := "p", width := 40, height := 20 }, { id := "q", width := 40, height := 20 },
    { id := "r", width := 40, height := 20 }, { id := "s", width := 40, height := 20 }]
  edges := [.plain "p" "s" .real, .plain "q" "r" .real]
  groups := [{ id := "box", members := ["q"] }]
  spacing := .standard
  margin := ⟨0, 0⟩

theorem ofGraph_crossings_tangle :
    let a := ofGraph 4 tangle.nodes tangle.edges tangle.spacing (forest [] tangle.groups)
    Register.error? tangle.nodes tangle.edges (forest [] tangle.groups) = none ∧ Lone (forest [] tangle.groups) ∧
    crossings a.stock.segments a.layers ≤ crossings a.stock.segments (initial a.stock) := by
  intro a
  have hv : Register.error? tangle.nodes tangle.edges (forest [] tangle.groups) = none := by decide
  have hl : Lone (forest [] tangle.groups) := by
    unfold Lone
    decide
  obtain ⟨n, _, _, _, _, _, _, _, _, hle⟩ := ofGraph_crossings hv 4 tangle.spacing
  exact ⟨hv, hl, hle hl 0 (Nat.zero_le n)⟩

section Exchange

-- Merge sort and insertion sort by keys agree, also on ties: both leave entries with one key in their order.
theorem mergeSort_eq_insertionSort {β γ : Type} [LinearOrder γ] (key : β → γ) (l : List β) :
    l.mergeSort (fun a b => key a ≤ key b) = l.insertionSort fun a b => key a ≤ key b := by
  let le (a b : β) : Bool := decide (key a ≤ key b)
  have ht : ∀ a b c, le a b → le b c → le a c := fun a b c => by simpa [le] using le_trans
  have hc : ∀ a b, (le a b || le b a) = true := fun a b => by simpa [le] using le_total _ _
  have orderedInsert_append {a : β} {l₁ l₂ : List β} (h₁ : ∀ b ∈ l₁, ¬key a ≤ key b) (h₂ : ∀ b ∈ l₂, key a ≤ key b) :
      (l₁ ++ l₂).orderedInsert (fun a b => key a ≤ key b) a = l₁ ++ a :: l₂ := by
    induction l₁
    case nil =>
      cases l₂
      case nil => rfl
      case cons b l₂ => simp [h₂ b (by simp)]
    case cons b l₁ hi =>
      obtain ⟨hb, h₁⟩ := List.forall_mem_cons.mp h₁
      rw [List.cons_append, List.orderedInsert_cons, if_neg hb, hi h₁, List.cons_append]
  induction l
  case nil => simp
  case cons a l hi =>
    obtain ⟨l₁, l₂, he, hl, hn⟩ := List.mergeSort_cons ht hc a l
    have hsorted := List.pairwise_mergeSort ht hc (a :: l)
    rw [he, List.pairwise_append, List.pairwise_cons] at hsorted
    rw [he, List.insertionSort_cons, ← hi, hl, orderedInsert_append]
    · simpa [le] using hn
    · simpa [le] using hsorted.right.left.left

-- The groups "A", "B" and "C" stand side by side on the upper rank, and "C" has a node below.
def exchange : SizedGraph Rat where
  nodes := [{ id := "a", width := 40, height := 20 }, { id := "b", width := 40, height := 20 },
    { id := "c", width := 40, height := 20 }, { id := "d", width := 40, height := 20 },
    { id := "e", width := 40, height := 20 }, { id := "f", width := 40, height := 20 }]
  edges := [.plain "e" "f" .real, .plain "b" "d" .real]
  groups := [{ id := "A", members := ["a", "c"] }, { id := "B", members := ["b"] },
    { id := "C", members := ["d", "e"] }]
  spacing := .standard
  margin := ⟨0, 0⟩

abbrev exchangeStock : Stock Rat :=
  Stock.ofNodes exchange.nodes exchange.edges exchange.spacing (forest [] exchange.groups)

theorem crossings_initial_exchange : crossings exchangeStock.segments (initial exchangeStock) = 0 ∧
    crossings exchangeStock.segments (arrangeAll exchangeStock.entries (initial exchangeStock)) = 1 := by
  have hdepth : depth exchangeStock.entries = 1 := by decide
  have hblocks (l : List (Block Rat × Rat)) : l.mergeSort (fun a b => a.2 ≤ b.2) = l.insertionSort fun a b => a.2 ≤ b.2 :=
    mergeSort_eq_insertionSort (·.2) l
  have hmeans (l : List (String × Rat)) : l.mergeSort (fun a b => a.2 ≤ b.2) = l.insertionSort fun a b => a.2 ≤ b.2 :=
    mergeSort_eq_insertionSort (·.2) l
  have hplaces (order : List (String × Nat)) (l : List String) : l.mergeSort (fun a b => place order a ≤ place order b) =
      l.insertionSort fun a b => place order a ≤ place order b :=
    mergeSort_eq_insertionSort (place order) l
  simp only [initial, arrangeAll, hdepth, arrange, Layers.blocks, siblingOrder, rankSiblings, hblocks, hmeans, hplaces]
  decide +kernel

-- The first arrangement crosses nothing and is kept. In it "B" is left of "C", with the mean positions 5/8 and 9/16,
-- so that they change places when it is arranged once more, and the two edges cross.
theorem ofGraph_crossings_exchange :
    Register.error? exchange.nodes exchange.edges (forest [] exchange.groups) = none ∧
    crossings exchangeStock.segments (initial exchangeStock) = 0 ∧
    crossings exchangeStock.segments
      (ofGraph 4 exchange.nodes exchange.edges exchange.spacing (forest [] exchange.groups)).layers = 1 := by
  obtain ⟨hzero, hone⟩ := crossings_initial_exchange
  refine ⟨by decide, hzero, ?_⟩
  have hlayers : (ofGraph 4 exchange.nodes exchange.edges exchange.spacing (forest [] exchange.groups)).layers =
      arrangeAll exchangeStock.entries (initial exchangeStock) := by
    change ofStock 4 exchangeStock = _
    simp only [ofStock, hzero]
    rw [search, if_pos (by norm_num)]
  rw [hlayers, hone]

end Exchange

end Arrangement

end LayeredDiagram
