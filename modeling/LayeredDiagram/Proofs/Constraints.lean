import LayeredDiagram.Layout.Horizontal
import LayeredDiagram.Proofs.Arrangement
import Mathlib.Data.List.Lex
/-!
The horizontal constraints of a layout never conflict. Every variable has a key, and keys grow along all
constraints in lexicographic order: the key of a group goes on from the keys of the groups around it with the
place of the group, and the key of an item goes on from those of the groups around it with the last place
that a group beside it takes up to there.
-/

namespace LayeredDiagram.Constraint

open LayeredDiagram.Group

variable {α : Type} {entries : List Entry} {place : String → Nat} {a : Arrangement α} {i j : Item α}
variable {l₁ l₂ layer : List (Item α)} {p q : List String} {g h : String} {n : Nat} {e : Entry}

section Key

-- The number after the places of all groups directly below a path that some items are in.
def passed (place : String → Nat) (p : List String) (items : List (Item α)) : Nat :=
  ((items.filterMap fun i => if p <+: i.path then i.path[p.length]?.map (place · + 1) else none).max?).getD 0

theorem lt_passed (hi : i ∈ l₁) (hg : p ++ [g] <+: i.path) : place g < passed place p l₁ := by
  have hp := (List.prefix_append p [g]).trans hg
  refine List.le_max?_getD_of_mem (List.mem_filterMap.mpr ⟨i, hi, ?_⟩)
  rw [if_pos hp, (Layers.concat_prefix_iff hp).mp hg, Option.map_some]

theorem passed_le (hn : ∀ i ∈ l₁, ∀ g, p ++ [g] <+: i.path → place g < n) : passed place p l₁ ≤ n := by
  unfold passed
  cases hm : List.max? (_ : List Nat)
  case none => exact Nat.zero_le _
  case some m =>
    have ⟨i, hi, hm⟩ := List.mem_filterMap.mp (List.max?_eq_some_iff.mp hm).left
    split at hm
    case isFalse => cases hm
    case isTrue hp =>
      have ⟨g, hg, hm⟩ := Option.map_eq_some_iff.mp hm
      exact hm ▸ hn i hi g ((Layers.concat_prefix_iff hp).mpr hg)

-- The key of a path, and those of all variables.
def pathKey (place : String → Nat) (p : List String) : List Nat :=
  p.map fun g => 3 * place g + 1

def key (entries : List Entry) (place : String → Nat) (a : Arrangement α) : Variable → List Nat
  | .left g => pathKey place (pathTo entries g)
  | .right g => pathKey place (pathTo entries g).dropLast ++ [3 * place g + 2]
  | .item slot =>
    match a.stock.items.find? (·.slot = slot) with
    | some i =>
      let before := (a.layers[i.rank]?.getD []).takeWhile (·.slot ≠ slot)
      pathKey place i.path ++ [3 * passed place i.path before, before.length]
    | none => []
  | .helper _ => []

theorem pathKey_concat : pathKey place (q ++ [g]) = pathKey place q ++ [3 * place g + 1] := by
  simp [pathKey]

theorem passed_le_passed_append : passed place p l₁ ≤ passed place p (l₁ ++ l₂) :=
  passed_le fun _ hi _ hg => lt_passed (List.mem_append_left _ hi) hg

variable (hA : Arranged entries place a)
include hA

theorem key_left (hp : IsPath entries (q ++ [g])) :
    key entries place a (.left g) = pathKey place q ++ [3 * place g + 1] := by
  rw [key, hA.forest.pathTo_eq hp, pathKey_concat]

theorem key_right (hp : IsPath entries (q ++ [g])) :
    key entries place a (.right g) = pathKey place q ++ [3 * place g + 2] := by
  rw [key, hA.forest.pathTo_eq hp, List.dropLast_concat]

theorem key_item (hl : a.layers[i.rank]?.getD [] = l₁ ++ i :: l₂) : key entries place a (.item i.slot) =
    pathKey place i.path ++ [3 * passed place i.path l₁, l₁.length] := by
  have mem {j} (hj : j ∈ l₁ ++ i :: l₂) : j ∈ a.stock.items := (hA.mem_layer_iff.mp (hl ▸ hj)).left
  have hi := mem (List.mem_append_right l₁ List.mem_cons_self)
  have hf : a.stock.items.find? (·.slot = i.slot) = some i := by
    have hs : (a.stock.items.find? (·.slot = i.slot)).isSome := by simpa using ⟨i, hi, rfl⟩
    have ⟨j, hj⟩ := Option.isSome_iff_exists.mp hs
    have hji : j.slot = i.slot := by simpa using List.find?_some hj
    rw [hj, List.inj_on_of_nodup_map hA.slot_nodup (List.mem_of_find?_eq_some hj) hi hji]
  have hn : ((l₁ ++ i :: l₂).map (·.slot)).Nodup :=
    hl ▸ ((hA.perm i.rank).map _).nodup_iff.mpr (hA.slot_nodup.sublist (List.filter_sublist.map _))
  have ht : (l₁ ++ i :: l₂).takeWhile (·.slot ≠ i.slot) = l₁ := by
    rw [List.takeWhile_append_of_pos, List.takeWhile_cons_of_neg, List.append_nil]
    · simp
    · intro j hj
      rw [List.map_append, List.nodup_append] at hn
      simpa using hn.right.right _ (List.mem_map_of_mem hj) _ (List.mem_map_of_mem List.mem_cons_self)
  rw [key, hf]
  simp only [hl, ht]

end Key

variable [Scalar α] {spacing : Spacing α} (hA : Arranged entries place a)
include hA

-- Neighbours are in different groups side by side, or one of them is directly inside the group around both.
theorem key_between_lt (hl : layer ∈ a.layers) (he : layer = l₁ ++ i :: j :: l₂) :
    key entries place a (between spacing i j).tail < key entries place a (between spacing i j).head := by
  have mem {k} (hk : k ∈ l₁ ++ i :: j :: l₂) : k ∈ a.stock.items := hA.mem_items hl (he ▸ hk)
  have path {k} {p} (hk : k ∈ l₁ ++ i :: j :: l₂) (hp : p <+: k.path) : IsPath entries p :=
    hA.forest.isPath_of_prefix (hA.isPath k (mem hk)) hp
  have hi := key_item hA (i := i) ((hA.layer_eq hl (by simp [he])).trans he)
  have hj := key_item hA (i := j) ((hA.layer_eq hl (by simp [he])).trans (he.trans (List.append_cons ..)))
  have ⟨p, r, hp, hr, hn⟩ := Chain.exists_eq_commonPath_append i.path j.path
  simp only [between, require, bounding?]
  generalize Chain.commonPath i.path j.path = q at hp hr
  have hb : i.path[q.length]? = p.head? ∧ j.path[q.length]? = r.head? := by
    simp [hp, hr, List.getElem?_append_right, List.head?_eq_getElem?]
  rw [hb.left, hb.right]
  cases p <;> cases r
  case nil.nil =>
    rw [List.append_nil] at hp hr
    have hle : passed place q l₁ ≤ passed place q (l₁ ++ [i]) := passed_le_passed_append
    simp only [List.head?_nil, Option.elim_none, hi, hj, hp, hr, List.length_append, List.length_singleton]
    refine List.append_left_lt (List.cons_lt_cons_iff.mpr ?_)
    cases hle.lt_or_eq
    case inl hlt => exact .inl (by omega)
    case inr heq => exact .inr ⟨by rw [heq], List.cons_lt_cons_iff.mpr (.inl (Nat.lt_succ_self _))⟩
  case nil.cons h r =>
    rw [List.append_nil] at hp
    have hh : q ++ [h] <+: j.path := ⟨r, by simp [hr]⟩
    -- A group that some item before `i` is in cannot go on behind `i`.
    have hle : passed place q l₁ ≤ place h := passed_le fun k hk g hg => by
      have hkij : [k, i, j].Sublist layer := by
        rw [he]
        exact (List.singleton_sublist.mpr hk).append (by simp)
      refine (hA.grouped layer hl).place_lt (.trans (by simp) hkij) hg hh ?_
      intro hgh
      subst hgh
      have := (((hA.grouped layer hl).clustered (q ++ [g]) (by simp)) k i j hkij hg hh).length_le
      rw [hp, List.length_append, List.length_singleton] at this
      omega
    simp only [List.head?_nil, List.head?_cons, Option.elim_none, Option.elim_some, hi, hp,
      key_left hA (path (k := j) (by simp) hh)]
    exact List.append_left_lt (List.cons_lt_cons_iff.mpr (.inl (by omega)))
  case cons.nil g p =>
    rw [List.append_nil] at hr
    have hg : q ++ [g] <+: i.path := ⟨p, by simp [hp]⟩
    have hlt : place g < passed place q (l₁ ++ [i]) := lt_passed (by simp) hg
    simp only [List.head?_nil, List.head?_cons, Option.elim_none, Option.elim_some, hj, hr,
      key_right hA (path (k := i) (by simp) hg)]
    exact List.append_left_lt (List.cons_lt_cons_iff.mpr (.inl (by omega)))
  case cons.cons g p h r =>
    have hg : q ++ [g] <+: i.path := ⟨p, by simp [hp]⟩
    have hh : q ++ [h] <+: j.path := ⟨r, by simp [hr]⟩
    have hlt : place g < place h :=
      (hA.grouped layer hl).place_lt (he ▸ List.sublist_append_of_sublist_right (by simp)) hg hh
        (hn g h rfl rfl)
    simp only [List.head?_cons, Option.elim_some, key_right hA (path (k := i) (by simp) hg),
      key_left hA (path (k := j) (by simp) hh)]
    exact List.append_left_lt (List.cons_lt_cons_iff.mpr (.inl (by omega)))

theorem key_inside_lt (hl : layer ∈ a.layers) (hi : i ∈ layer) {c : Constraint α} (hc : c ∈ inside spacing i) :
    key entries place a c.tail < key entries place a c.head := by
  have ⟨l₁, l₂, he⟩ := List.append_of_mem hi
  have hk := key_item hA ((hA.layer_eq hl hi).trans he)
  unfold inside at hc
  split at hc
  case h_1 g hg =>
    have ⟨q, hq⟩ := List.getLast?_eq_some_iff.mp hg
    have hp : IsPath entries (q ++ [g]) := hq ▸ hA.isPath i (hA.mem_items hl hi)
    rw [hq, pathKey_concat, List.append_assoc] at hk
    simp only [List.mem_cons, List.not_mem_nil, or_false] at hc
    rcases hc with rfl | rfl <;> simp only [require, hk, key_left hA hp, key_right hA hp]
    · exact List.append_left_lt (by simp)
    · exact List.append_left_lt (List.cons_lt_cons_iff.mpr (.inl (by omega)))
  case h_2 => simp at hc

omit [Scalar α] in
theorem key_nested_lt (he : e ∈ entries) {c : Constraint α} (hc : c ∈ nested spacing e) :
    key entries place a c.tail < key entries place a c.head := by
  unfold nested Entry.parent? at hc
  split at hc
  case h_1 p hp =>
    have ⟨r, hr⟩ := hA.forest.path_eq_append he
    rw [hr, List.dropLast_concat] at hp
    have ⟨q, hq⟩ := List.getLast?_eq_some_iff.mp hp
    have hpe : IsPath entries (r ++ [e.id]) := hr ▸ IsForest.isPath_path he
    have hpp : IsPath entries (q ++ [p]) := hq ▸ hA.forest.isPath_of_prefix hpe (List.prefix_append ..)
    simp only [List.mem_cons, List.not_mem_nil, or_false] at hc
    rcases hc with rfl | rfl <;>
      simp only [require, key_left hA hpe, key_right hA hpe, key_left hA hpp, key_right hA hpp, hq,
        pathKey_concat, List.append_assoc]
    · exact List.append_left_lt (by simp)
    · exact List.append_left_lt (List.cons_lt_cons_iff.mpr (.inl (by omega)))
  case h_2 => simp at hc

theorem key_aligned_lt {s : Segment α} {index : Nat} (hs : s ∈ a.stock.segments) {c : Constraint α}
    (hc : c ∈ aligned index s) : key entries place a c.tail < key entries place a c.head := by
  have ⟨hu, hl, _⟩ := hA.segments s hs
  have nil_lt {i} (hi : i ∈ a.stock.items) : [] < key entries place a (.item i.slot) := by
    have ⟨layer, hm, _, hi⟩ := hA.exists_layer hi
    have ⟨l₁, l₂, he⟩ := List.append_of_mem hi
    rw [key_item hA ((hA.layer_eq hm hi).trans he)]
    cases pathKey place i.path <;> exact List.nil_lt_cons ..
  simp only [aligned, List.mem_cons, List.not_mem_nil, or_false] at hc
  rcases hc with rfl | rfl
  · exact nil_lt hu
  · exact nil_lt hl

-- Keys grow along all constraints.
theorem key_lt {c : Constraint α} (hc : c ∈ all spacing entries a.stock.segments a.layers) :
    key entries place a c.tail < key entries place a c.head := by
  simp only [all, ofLayer, List.mem_append, List.mem_flatMap, List.mem_map, Prod.exists] at hc
  rcases hc with ((⟨layer, hl, ⟨i, j, hij, rfl⟩ | ⟨i, hi, hc⟩⟩ | ⟨e, he, hc⟩) | ⟨s, index, hs, hc⟩) | ⟨e, he, rfl⟩
  · obtain ⟨l₁, l₂, he⟩ := mem_zip_tail_iff.mp hij
    exact key_between_lt hA hl he
  · exact key_inside_lt hA hl hi hc
  · exact key_nested_lt hA he hc
  · exact key_aligned_lt hA (List.fst_mem_of_mem_zipIdx hs) hc
  · obtain ⟨q, hq⟩ := hA.forest.path_eq_append he
    have hp : IsPath entries (q ++ [e.id]) := hq ▸ IsForest.isPath_path he
    simp only [compact, key_left hA hp, key_right hA hp]
    exact List.append_left_lt (List.cons_lt_cons_iff.mpr (.inl (by omega)))

theorem acyclic_all (spacing : Spacing α) : Acyclic (Follows ((all spacing entries a.stock.segments a.layers).map fun c =>
    (c.tail, c.head))) := by
  refine Acyclic.of_measure (key entries place a) fun u v h => ?_
  have ⟨c, hc, he⟩ := List.mem_map.mp h
  cases he
  exact key_lt hA hc

end LayeredDiagram.Constraint
