import LayeredDiagram.Proofs.Blocks
import LayeredDiagram.Proofs.Decimals
/-!
The order that the search for few crossings leaves. Every step permutes the items of one rank, and the last
one makes all ranks contiguous with one and the same order of groups side by side.
-/

namespace LayeredDiagram.Layers

variable {α : Type} {layers layers₁ layers₂ layers₃ : Layers α}

-- Layers with the same items on every rank.
structure Rearranged (layers₁ layers₂ : Layers α) : Prop where
  length_eq : layers₁.length = layers₂.length
  perm : ∀ r : Nat, (layers₁[r]?.getD []).Perm (layers₂[r]?.getD [])

namespace Rearranged

theorem refl (layers : Layers α) : Rearranged layers layers :=
  ⟨rfl, fun _ => .refl _⟩

theorem trans (h₁ : Rearranged layers₁ layers₂) (h₂ : Rearranged layers₂ layers₃) :
    Rearranged layers₁ layers₃ :=
  ⟨h₁.length_eq.trans h₂.length_eq, fun r => (h₁.perm r).trans (h₂.perm r)⟩

theorem map {f : List (Item α) → List (Item α)} (hf : ∀ l, (f l).Perm l) (layers : Layers α) :
    Rearranged (layers.map f) layers := by
  refine ⟨by simp, fun r => ?_⟩
  rw [List.getElem?_map]
  cases layers[r]?
  case none => exact .refl _
  case some l => exact hf l

theorem set {r : Nat} {layer : List (Item α)} (h : layer.Perm (layers[r]?.getD [])) :
    Rearranged (layers.set r layer) layers := by
  refine ⟨by simp, fun k => ?_⟩
  rw [List.getElem?_set]
  split
  case isTrue hk =>
    subst hk
    split
    case isTrue => exact h
    case isFalse hl => simp [List.getElem?_eq_none (by omega : layers.length ≤ r)]
  case isFalse => exact .refl _

theorem foldl {ι : Type} {step : Layers α → ι → Layers α} (hs : ∀ l i, Rearranged (step l i) l)
    (is : List ι) (layers : Layers α) : Rearranged (is.foldl step layers) layers := by
  induction is generalizing layers
  case nil => exact refl _
  case cons i is hi => exact (hi _).trans (hs _ _)

-- Layers with the same items have their items in common.
theorem exists_perm_of_mem {layer : List (Item α)} (h : Rearranged layers₁ layers₂)
    (hl : layer ∈ layers₁) : ∃ layer' ∈ layers₂, layer.Perm layer' := by
  have ⟨r, hr⟩ := List.getElem?_of_mem hl
  have hlt : r < layers₂.length := h.length_eq ▸ (List.getElem?_eq_some_iff.mp hr).1
  refine ⟨layers₂[r], List.getElem_mem hlt, ?_⟩
  simpa [hr, List.getElem?_eq_getElem hlt] using h.perm r

end Rearranged

section Search

variable [Scalar α] {entries : List Group.Entry} {segments : List (Segment α)}

theorem arrangeAll_rearranged (entries : List Group.Entry) (layers : Layers α) :
    Rearranged (arrangeAll entries layers) layers :=
  .map (fun l => arrange_perm _ _ _ l) layers

theorem sortRank_rearranged (neighbours : Slot → List (Slot × α)) (layers : Layers α) (rank ref : Nat) :
    Rearranged (sortRank entries neighbours layers rank ref) layers := by
  refine .set ((arrange_perm ..).trans (((List.mergeSort_perm ..).map _).trans (.of_eq ?_)))
  simp [List.map_map, Function.comp_def]

theorem sweep_rearranged (entries : List Group.Entry) (segments : List (Segment α)) (layers : Layers α) :
    Rearranged (sweep entries segments layers) layers :=
  (Rearranged.foldl (fun l _ => sortRank_rearranged _ l _ _) _ _).trans
    (Rearranged.foldl (fun l _ => sortRank_rearranged _ l _ _) _ _)

-- Both the best layers and the current ones keep the items.
theorem search_rearranged {s : Search α} {sweeps : Nat} (hb : Rearranged s.best layers)
    (hc : Rearranged s.current layers) : Rearranged (search entries segments sweeps s).best layers := by
  induction sweeps generalizing s
  case zero => exact hb
  case succ sweeps hi =>
    have hs := (sweep_rearranged entries segments s.current).trans hc
    simp only [search]
    split
    case isTrue => exact hb
    case isFalse =>
      split
      case isTrue => exact hi hs hs
      case isFalse => exact hi hb hs

-- The layers that the last arrangement starts from.
theorem exists_ofStock_eq (sweeps : Nat) (s : Stock α) :
    ∃ found, ofStock sweeps s = arrangeAll s.entries found ∧ Rearranged found s.layers :=
  have h := arrangeAll_rearranged s.entries s.layers
  ⟨_, rfl, search_rearranged h h⟩

theorem ofStock_rearranged (sweeps : Nat) (s : Stock α) : Rearranged (ofStock sweeps s) s.layers := by
  have ⟨found, he, hf⟩ := exists_ofStock_eq sweeps s
  exact he ▸ (arrangeAll_rearranged _ _).trans hf

end Search

section Siblings

open LayeredDiagram.Group

variable {entries : List Group.Entry} {p : List String} {g h : String} {family : List String}

-- The groups directly below a path make up one family, and none of them is in another one.
theorem exists_family (hf : IsForest entries) (hp : IsPath entries p) :
    ∃ family ∈ families entries, ∀ g, IsPath entries (p ++ [g]) →
      g ∈ family ∧ ∀ family' ∈ families entries, g ∈ family' → family' = family := by
  by_cases hn : p = []
  case pos =>
    subst hn
    refine ⟨_, List.mem_cons_self, fun g hg => ?_⟩
    have ⟨e, he, hi, hpe⟩ := hf.exists_of_isPath_concat hg
    refine ⟨List.mem_map.mpr ⟨e, by simp [he, hpe], hi⟩, fun family' hm hg' => ?_⟩
    cases List.mem_cons.mp hm
    case inl hm => exact hm
    case inr hm =>
      have ⟨f, hf', hc⟩ := List.mem_map.mp hm
      have ⟨e', he', hi', hpe'⟩ := hf.child f hf' g (hc ▸ hg')
      rw [hf.eq_of_id_eq he' he (hi'.trans hi.symm), hpe] at hpe'
      exact absurd (List.append_inj_left' hpe'.symm rfl) (hf.path_ne_nil hf')
  case neg =>
    obtain ⟨f, hf', rfl⟩ := hp.resolve_left hn
    have only {f' : Group.Entry} {g : String} (h : f' ∈ entries) (hpf : f'.path ++ [g] = f.path ++ [g]) : f' = f := by
      have hl := congrArg List.getLast? (List.append_inj_left' hpf rfl)
      rw [hf.getLast?_path h, hf.getLast?_path hf'] at hl
      exact hf.eq_of_id_eq h hf' (Option.some.inj hl)
    refine ⟨f.children, List.mem_cons_of_mem _ (List.mem_map_of_mem hf'), fun g hg => ?_⟩
    have ⟨e, he, hi, hpe⟩ := hf.exists_of_isPath_concat hg
    constructor
    case left =>
      cases hf.parent e he
      case inl h =>
        rw [hpe] at h
        exact absurd (by simpa using congrArg List.length h) hn
      case inr h =>
        have ⟨f', hf'', h, hc⟩ := h
        rw [hpe, hi] at h
        exact hi ▸ only hf'' h.symm ▸ hc
    case right =>
      intro family' hm hg'
      cases List.mem_cons.mp hm
      case inl hm =>
        subst hm
        have ⟨e', he', hi'⟩ := List.mem_map.mp hg'
        have ⟨he', hl⟩ := List.mem_filter.mp he'
        rw [hf.eq_of_id_eq he' he (hi'.trans hi.symm), hpe] at hl
        simp at hl
        exact absurd hl hn
      case inr hm =>
        have ⟨f', hf'', hc⟩ := List.mem_map.mp hm
        have ⟨e', he', hi', hpe'⟩ := hf.child f' hf'' g (hc ▸ hg')
        rw [hf.eq_of_id_eq he' he (hi'.trans hi.symm), hpe] at hpe'
        exact only hf'' hpe'.symm ▸ hc.symm

variable [Scalar α]

theorem rankSiblings_perm (layers : Layers α) (family : List String) :
    (rankSiblings layers family).Perm family :=
  ((List.mergeSort_perm ..).map _).trans (.of_eq (by simp [List.map_map, Function.comp_def]))

-- A key that stands in several parts, always with the same number, has this number.
theorem lookup_flatMap {γ : Type} {l : List γ} {f : γ → List (String × Nat)} {x : γ} {n : Nat} (hx : x ∈ l)
    (hn : (f x).lookup g = some n) (h : ∀ y ∈ l, (f y).lookup g = none ∨ (f y).lookup g = some n) :
    (l.flatMap f).lookup g = some n := by
  induction l
  case nil => simp at hx
  case cons y l hi =>
    rw [List.flatMap_cons, List.lookup_append]
    cases h y List.mem_cons_self
    case inr hy => simp [hy]
    case inl hy =>
      rw [hy, Option.none_or]
      refine hi ((List.mem_cons.mp hx).resolve_left ?_) fun z hz => h z (List.mem_cons_of_mem _ hz)
      intro hxy
      rw [hxy, hy] at hn
      cases hn

-- The place of a group is its position in its family.
theorem getElem?_place (layers : Layers α) (hg : g ∈ family) (hm : family ∈ families entries)
    (h : ∀ family' ∈ families entries, g ∈ family' → family' = family) :
    (rankSiblings layers family)[place (siblingOrder entries layers) g]? = some g := by
  have hs : (((rankSiblings layers family).zipIdx).lookup g).isSome := by
    have ⟨i, hi⟩ := List.getElem?_of_mem ((rankSiblings_perm layers family).mem_iff.mpr hg)
    rw [List.lookup_isSome_iff]
    exact ⟨(g, i), List.mk_mem_zipIdx_iff_getElem?.mpr hi, by simp⟩
  have ⟨n, hn⟩ := Option.isSome_iff_exists.mp hs
  have hl : (siblingOrder entries layers).lookup g = some n := by
    refine lookup_flatMap hm hn fun family' hm' => ?_
    by_cases hg' : g ∈ family'
    case pos => exact .inr (h family' hm' hg' ▸ hn)
    case neg =>
      left
      rw [List.lookup_eq_none_iff]
      intro x hx
      have := (rankSiblings_perm layers family').mem_iff.mp (List.fst_mem_of_mem_zipIdx hx)
      grind
  rw [place, hl, Option.getD_some]
  have ⟨_, _, hl, _⟩ := List.lookup_eq_some_iff.mp hn
  exact List.mk_mem_zipIdx_iff_getElem?.mp (hl ▸ by simp)

-- Groups side by side have different places.
theorem place_ne (hf : IsForest entries) (layers : Layers α) (hg : IsPath entries (p ++ [g]))
    (hh : IsPath entries (p ++ [h])) (hn : g ≠ h) :
    place (siblingOrder entries layers) g ≠ place (siblingOrder entries layers) h := by
  intro hp
  have ⟨family, hm, hfam⟩ := exists_family hf (hf.isPath_of_prefix hg (List.prefix_append ..))
  have ⟨hgm, hgo⟩ := hfam g hg
  have ⟨hhm, hho⟩ := hfam h hh
  have hpg := getElem?_place layers hgm hm hgo
  have hph := getElem?_place layers hhm hm hho
  rw [hp, hph] at hpg
  exact hn (Option.some.inj hpg).symm

-- A rank in which groups are contiguous, and groups side by side come in the order of their places.
structure Grouped (place : String → Nat) (layer : List (Item α)) : Prop where
  clustered : ∀ p ≠ [], Clustered (fun i => p <+: i.path) layer
  sorted : layer.Pairwise fun i j => ∀ p g h, p ++ [g] <+: i.path → p ++ [h] <+: j.path → g ≠ h →
    place g < place h

omit [Scalar α] in
theorem Grouped.place_lt {place : String → Nat} {layer : List (Item α)} {i j : Item α}
    (hl : Grouped place layer) (hs : [i, j].Sublist layer) (hi : p ++ [g] <+: i.path)
    (hj : p ++ [h] <+: j.path) (hn : g ≠ h) : place g < place h :=
  List.pairwise_iff_forall_sublist.mp hl.sorted hs p g h hi hj hn

omit [Scalar α] in
theorem below_of_isPath {layer : List (Item α)} (h : ∀ i ∈ layer, IsPath entries i.path) :
    Below [] (depth entries) layer := by
  refine ⟨fun i _ => List.nil_prefix, fun i hi => ?_⟩
  cases h i hi
  case inl hn => simp [hn]
  case inr hn =>
    have ⟨e, he, hn⟩ := hn
    simpa [← hn] using path_length_le_depth he

omit [Scalar α] in
theorem Rearranged.isPath {s : Stock α} (hp : ∀ i ∈ s.items, IsPath s.entries i.path)
    (hr : Rearranged layers s.layers) {layer : List (Item α)} (hl : layer ∈ layers) :
    ∀ i ∈ layer, IsPath s.entries i.path := by
  intro i hi
  have ⟨layer', hl', hperm⟩ := hr.exists_perm_of_mem hl
  have ⟨r, _, hr⟩ := List.mem_map.mp hl'
  exact hp i (List.mem_of_mem_filter (hr ▸ hperm.mem_iff.mp hi))

-- One order of groups holds for all ranks.
theorem exists_grouped {s : Stock α} (hf : IsForest s.entries) (hp : ∀ i ∈ s.items, IsPath s.entries i.path)
    (sweeps : Nat) : ∃ place, ∀ layer ∈ ofStock sweeps s, Grouped place layer := by
  have ⟨found, he, hr⟩ := exists_ofStock_eq sweeps s
  refine ⟨place (siblingOrder s.entries found), fun layer hl => ?_⟩
  rw [he, arrangeAll, List.mem_map] at hl
  obtain ⟨layer, hl, rfl⟩ := hl
  have hpath := hr.isPath hp hl
  have hb := below_of_isPath hpath
  constructor
  case clustered => exact fun p hn => arrange_clustered hb (List.length_pos_iff.mpr hn)
  case sorted =>
    refine (arrange_inOrder hb).imp_of_mem fun {i j} hi hj h p g k hg hk hn => ?_
    have isPath {i} {q} (hi : i ∈ arrange (siblingOrder s.entries found) (depth s.entries) 0 layer)
        (hq : q <+: i.path) : IsPath s.entries q :=
      hf.isPath_of_prefix (hpath i ((arrange_perm ..).mem_iff.mp hi)) hq
    exact lt_of_le_of_ne (h p g k hg hk hn) (place_ne hf _ (isPath hi hg) (isPath hj hk) hn)

end Siblings

section Undisturbed

variable {items : List (Item Rat)} {i j : Item Rat} {order : List (String × Nat)} {g : String} {s : Stock Rat}

theorem deal_map_single (content : String → List (Item Rat)) (items : List (Item Rat)) (queue : List String) :
    deal content (items.map Block.single) queue = items := by
  induction items
  case nil => rfl
  case cons i items hi => rw [List.map_cons, deal, hi]

theorem pairwise_singles {f : Item Rat × Nat → Option (Block Rat × Rat)} {depth : Nat}
    (hf : ∀ i n, f (i, n) = if i.path[depth]? = none then some (Block.single i, (n : Rat)) else none) :
    (items.zipIdx.filterMap f).Pairwise fun a b => a.2 ≤ b.2 := by
  have hlt : items.zipIdx.Pairwise fun a b => a.2 < b.2 := by
    rw [← List.pairwise_map (f := Prod.snd), List.zipIdx_map_snd]
    exact List.pairwise_lt_range'
  refine List.pairwise_filterMap.mpr (hlt.imp fun {a b} hab c hc e he => ?_)
  rw [hf] at hc he
  split at hc <;> split at he
  case isTrue.isTrue =>
    rw [← Option.some.inj hc, ← Option.some.inj he]
    exact Nat.cast_le.mpr hab.le
  all_goals simp_all

-- A rank without groups stays as it is.
theorem arrange_of_path_nil (h : ∀ i ∈ items, i.path = []) (levels depth : Nat) :
    arrange order levels depth items = items := by
  cases levels
  case zero => rfl
  case succ levels =>
    have hgroups : items.filterMap (fun i => i.path[depth]?) = [] :=
      List.filterMap_eq_nil_iff.mpr fun i hi => by simp [h i hi]
    have hsingles : items.filter (·.path[depth]? = none) = items :=
      List.filter_eq_self.mpr fun i hi => by simp [h i hi]
    have hblocks : Layers.blocks depth items = items.map Block.single := by
      simp only [Layers.blocks, hgroups, List.eraseDups_nil, List.map_nil, List.append_nil]
      rw [List.mergeSort_of_pairwise, map_singles, hsingles]
      case hf => exact fun i n => by cases i.path[depth]? <;> rfl
      exact (pairwise_singles fun i n => by cases i.path[depth]? <;> rfl).imp (by simp)
    rw [arrange, hblocks]
    exact deal_map_single ..

-- An item of a group stays in front of one outside.
theorem arrange_pair (hi : i.path = [g]) (hj : j.path = []) : arrange order 1 0 [i, j] = [i, j] := by
  simp [arrange, Layers.blocks, hi, hj, List.zipIdx, List.mergeSort, List.MergeSort.Internal.splitInTwo, deal,
    Block.group?, List.eraseDups_cons, List.filterMap_cons]

-- Ranks in which groups are contiguous stay in their order if no segments cross.
theorem ofStock_of_crossings_eq_zero (hc : crossings s.segments s.layers = 0)
    (ha : ∀ order, ∀ layer ∈ s.layers, arrange order (depth s.entries) 0 layer = layer) (sweeps : Nat) :
    ofStock sweeps s = s.layers := by
  have harrange : arrangeAll s.entries s.layers = s.layers := by
    rw [arrangeAll]
    conv_rhs => rw [← List.map_id s.layers]
    exact List.map_congr_left fun layer hl => ha _ layer hl
  have hsearch : (search s.entries s.segments sweeps ⟨s.layers, 0, s.layers⟩).best = s.layers := by
    cases sweeps
    case zero => rfl
    case succ sweeps => rw [search, if_pos (by norm_num)]
  rw [ofStock, initial, harrange, hc, hsearch, harrange]

end Undisturbed

end LayeredDiagram.Layers
