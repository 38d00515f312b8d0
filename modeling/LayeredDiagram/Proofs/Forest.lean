import LayeredDiagram.Graph.Group
import Mathlib.Data.List.Basic
import Mathlib.Data.List.Infix
import Mathlib.Data.List.Nodup
/-!
Paths in a forest of groups. Every group stands below the group whose path is its own path without the
last id, and if ids are unique, then an id occurs in exactly those paths that go on from its own.
-/

namespace LayeredDiagram.Group

variable {above : List String} {gs : List Group} {e f : Entry}

-- Every group of a forest is one of the roots, or it is listed as a child of another group.
mutual

theorem root_or_child_of_mem_entries : (g : Group) → (above : List String) → e ∈ entries above g →
    (e.path = above ++ [g.id] ∧ e.id = g.id) ∨
      ∃ f ∈ entries above g, e.path = f.path ++ [e.id] ∧ e.id ∈ f.children
  | ⟨id, label, members, children, kind⟩, above, h => by
    simp only [entries, List.mem_cons] at h ⊢
    cases h
    case inl h => simp [h]
    case inr h =>
      right
      cases root_or_child_of_mem_forest children _ h
      case inl h => exact ⟨_, .inl rfl, h⟩
      case inr h =>
        have ⟨f, hf, hp⟩ := h
        exact ⟨f, .inr hf, hp⟩

theorem root_or_child_of_mem_forest : (gs : List Group) → (above : List String) → e ∈ forest above gs →
    (e.path = above ++ [e.id] ∧ e.id ∈ gs.map Group.id) ∨
      ∃ f ∈ forest above gs, e.path = f.path ++ [e.id] ∧ e.id ∈ f.children
  | [], _, h => by simp [forest] at h
  | g :: gs, above, h => by
    simp only [forest, List.mem_append, List.map_cons, List.mem_cons] at h ⊢
    cases h
    case inl h =>
      cases root_or_child_of_mem_entries g above h
      case inl h => exact .inl ⟨h.right ▸ h.left, .inl h.right⟩
      case inr h =>
        have ⟨f, hf, hp⟩ := h
        exact .inr ⟨f, .inl hf, hp⟩
    case inr h =>
      cases root_or_child_of_mem_forest gs above h
      case inl h => exact .inl ⟨h.left, .inr h.right⟩
      case inr h =>
        have ⟨f, hf, hp⟩ := h
        exact .inr ⟨f, .inr hf, hp⟩

end

-- Conversely every root and every listed child has an entry of its own.
theorem exists_root_entry (above : List String) {id : String} (h : id ∈ gs.map Group.id) :
    ∃ e ∈ forest above gs, e.id = id ∧ e.path = above ++ [id] := by
  induction gs
  case nil => simp at h
  case cons g gs hi =>
    simp only [List.map_cons, List.mem_cons] at h
    cases h
    case inl h =>
      obtain ⟨i, label, members, children, kind⟩ := g
      simp only at h
      subst h
      exact ⟨_, by rw [forest_cons, entries]; simp; left; rfl, rfl, rfl⟩
    case inr h =>
      have ⟨e, he, hp⟩ := hi h
      exact ⟨e, by simp [forest_cons, he], hp⟩

mutual

theorem exists_child_of_mem_entries {id : String} : (g : Group) → (above : List String) →
    f ∈ entries above g → id ∈ f.children →
    ∃ e ∈ entries above g, e.id = id ∧ e.path = f.path ++ [id]
  | ⟨_, _, _, children, _⟩, above, hf, h => by
    simp only [entries, List.mem_cons] at hf ⊢
    cases hf
    case inl hf =>
      subst hf
      obtain ⟨e, he, hp⟩ := exists_root_entry _ h
      exact ⟨e, .inr he, hp⟩
    case inr hf =>
      have ⟨e, he, hp⟩ := exists_child_of_mem_forest children _ hf h
      exact ⟨e, .inr he, hp⟩

theorem exists_child_of_mem_forest {id : String} : (gs : List Group) → (above : List String) →
    f ∈ forest above gs → id ∈ f.children →
    ∃ e ∈ forest above gs, e.id = id ∧ e.path = f.path ++ [id]
  | [], _, hf, _ => by simp [forest] at hf
  | g :: gs, above, hf, h => by
    simp only [forest, List.mem_append] at hf ⊢
    cases hf
    case inl hf =>
      have ⟨e, he, hp⟩ := exists_child_of_mem_entries g above hf h
      exact ⟨e, .inl he, hp⟩
    case inr hf =>
      have ⟨e, he, hp⟩ := exists_child_of_mem_forest gs above hf h
      exact ⟨e, .inr he, hp⟩

end

-- Paths of a forest begin with the way down to it and one of its roots.
mutual

theorem path_of_mem_entries : (g : Group) → (above : List String) → e ∈ entries above g →
    above ++ [g.id] <+: e.path
  | ⟨_, _, _, children, _⟩, above, h => by
    simp only [entries, List.mem_cons] at h
    cases h
    case inl h => simp [h]
    case inr h =>
      have ⟨_, _, hp⟩ := path_of_mem_forest children _ h
      exact (List.prefix_append ..).trans hp

theorem path_of_mem_forest : (gs : List Group) → (above : List String) → e ∈ forest above gs →
    ∃ id ∈ gs.map Group.id, above ++ [id] <+: e.path
  | [], _, h => by simp [forest] at h
  | g :: gs, above, h => by
    simp only [forest, List.mem_append] at h
    cases h
    case inl h => exact ⟨g.id, by simp, path_of_mem_entries g above h⟩
    case inr h =>
      have ⟨id, hi, hp⟩ := path_of_mem_forest gs above h
      exact ⟨id, by simp [hi], hp⟩

end

-- No group comes before one that it is inside of.
mutual

theorem entries_pairwise : (g : Group) → (above : List String) →
    ((entries above g).map (·.id)).Nodup → (entries above g).Pairwise fun f e => ¬e.path <+: f.path
  | ⟨id, _, _, children, _⟩, above, h => by
    simp only [entries, List.map_cons, List.nodup_cons, List.pairwise_cons] at h ⊢
    refine ⟨fun e he hp => ?_, forest_pairwise children _ h.right⟩
    have ⟨_, _, hq⟩ := path_of_mem_forest children _ he
    have := (hq.trans hp).length_le
    simp at this

theorem forest_pairwise : (gs : List Group) → (above : List String) →
    ((forest above gs).map (·.id)).Nodup → (forest above gs).Pairwise fun f e => ¬e.path <+: f.path
  | [], _, _ => by simp [forest]
  | g :: gs, above, h => by
    simp only [forest, List.map_append, List.nodup_append, List.pairwise_append] at h ⊢
    have ⟨h₁, h₂, hn⟩ := h
    refine ⟨entries_pairwise g above h₁, forest_pairwise gs above h₂, fun f hf e he hp => ?_⟩
    have ⟨id, hi, hq⟩ := path_of_mem_forest gs above he
    have hf' := path_of_mem_entries g above hf
    have hg := List.prefix_of_prefix_length_le (hq.trans hp) hf' (by simp)
    simp only [List.prefix_append_right_inj, List.cons_prefix_cons, List.prefix_rfl, and_true] at hg
    have ⟨e', he', hi', _⟩ := exists_root_entry above hi
    have ⟨f', hf', hi'', _⟩ := exists_root_entry above (List.mem_map.mpr ⟨g, List.mem_singleton_self g, rfl⟩)
    rw [forest_cons, forest_nil, List.append_nil] at hf'
    refine hn g.id ?_ id ?_ hg.symm
    · exact hi'' ▸ List.mem_map_of_mem hf'
    · exact hi' ▸ List.mem_map_of_mem he'

end

-- The entries of a forest in which no id occurs twice.
structure IsForest (entries : List Entry) : Prop where
  ids_nodup : (entries.map (·.id)).Nodup
  parent : ∀ e ∈ entries,
    e.path = [e.id] ∨ ∃ f ∈ entries, e.path = f.path ++ [e.id] ∧ e.id ∈ f.children
  child : ∀ f ∈ entries, ∀ id ∈ f.children, ∃ e ∈ entries, e.id = id ∧ e.path = f.path ++ [id]
  outer_first : entries.Pairwise fun f e => ¬e.path <+: f.path

theorem isForest_forest (h : ((forest [] gs).map (·.id)).Nodup) : IsForest (forest [] gs) where
  ids_nodup := h
  parent _ he := (root_or_child_of_mem_forest gs [] he).imp_left (·.left)
  child _ hf _ h := exists_child_of_mem_forest gs [] hf h
  outer_first := forest_pairwise gs [] h

-- The paths that lead to groups, and the one that leads to no group.
def IsPath (entries : List Entry) (p : List String) : Prop :=
  p = [] ∨ ∃ e ∈ entries, e.path = p

-- The path to the group with a given id.
def pathTo (entries : List Entry) (id : String) : List String :=
  ((entries.find? (·.id == id)).map (·.path)).getD []

namespace IsForest

variable {entries : List Entry} {p q : List String} {g : String}

theorem eq_of_id_eq (h : IsForest entries) (he : e ∈ entries) (hf : f ∈ entries) (hi : e.id = f.id) :
    e = f :=
  List.inj_on_of_nodup_map h.ids_nodup he hf hi

theorem path_eq_append (h : IsForest entries) (he : e ∈ entries) : ∃ q, e.path = q ++ [e.id] := by
  cases h.parent e he
  case inl hp => exact ⟨[], hp⟩
  case inr hp =>
    have ⟨f, _, hp, _⟩ := hp
    exact ⟨f.path, hp⟩

theorem getLast?_path (h : IsForest entries) (he : e ∈ entries) : e.path.getLast? = some e.id := by
  have ⟨q, hq⟩ := h.path_eq_append he
  simp [hq]

theorem path_ne_nil (h : IsForest entries) (he : e ∈ entries) : e.path ≠ [] := by
  have ⟨q, hq⟩ := h.path_eq_append he
  simp [hq]

theorem id_mem_path (h : IsForest entries) (he : e ∈ entries) : e.id ∈ e.path :=
  List.mem_of_getLast? (h.getLast?_path he)

-- By induction on the path: a proper part of it is a part of the parent's path.
theorem exists_of_prefix (h : IsForest entries) (he : e ∈ entries) (hq : q <+: e.path) (hn : q ≠ []) :
    ∃ f ∈ entries, f.path = q := by
  induction hl : e.path.length generalizing e
  case zero => exact absurd (List.eq_nil_of_length_eq_zero hl) (h.path_ne_nil he)
  case succ n hi =>
    cases h.parent e he
    case inl hp =>
      rw [hp, ← List.nil_append [e.id], List.prefix_concat_iff] at hq
      cases hq
      case inl hq => exact ⟨e, he, hq ▸ hp⟩
      case inr hq => exact absurd (List.prefix_nil.mp hq) hn
    case inr hp =>
      have ⟨f, hf, hp, _⟩ := hp
      rw [hp, List.prefix_concat_iff] at hq
      cases hq
      case inl hq => exact ⟨e, he, hq ▸ hp⟩
      case inr hq => exact hi hf hq (by simpa [hp] using hl)

theorem isPath_of_prefix (h : IsForest entries) (hp : IsPath entries p) (hq : q <+: p) :
    IsPath entries q := by
  cases hp
  case inl hp => exact .inl (List.prefix_nil.mp (hp ▸ hq))
  case inr hp =>
    have ⟨e, he, hp⟩ := hp
    by_cases hn : q = []
    case pos => exact .inl hn
    case neg => exact .inr (h.exists_of_prefix he (hp ▸ hq) hn)

theorem isPath_path (he : e ∈ entries) : IsPath entries e.path :=
  .inr ⟨e, he, rfl⟩

theorem exists_of_isPath_concat (h : IsForest entries) (hp : IsPath entries (q ++ [g])) :
    ∃ e ∈ entries, e.id = g ∧ e.path = q ++ [g] := by
  cases hp
  case inl hp => simp at hp
  case inr hp =>
    have ⟨e, he, hp⟩ := hp
    have hl := h.getLast?_path he
    simp only [hp, List.getLast?_concat, Option.some.injEq] at hl
    exact ⟨e, he, hl.symm, hp⟩

theorem mem_iff_path_prefix (h : IsForest entries) (hp : IsPath entries p) (he : e ∈ entries) :
    e.id ∈ p ↔ e.path <+: p where
  mp hm := by
    have ⟨q, r, hqr⟩ := List.append_of_mem hm
    have hq : q ++ [e.id] <+: p := ⟨r, by simp [hqr]⟩
    have ⟨f, hf, hi, hpf⟩ := h.exists_of_isPath_concat (h.isPath_of_prefix hp hq)
    exact h.eq_of_id_eq he hf hi.symm ▸ hpf ▸ hq
  mpr hq := hq.subset (h.id_mem_path he)

theorem pathTo_id (h : IsForest entries) (he : e ∈ entries) : pathTo entries e.id = e.path := by
  have hs : (entries.find? (·.id == e.id)).isSome := by simpa using ⟨e, he, rfl⟩
  have ⟨f, hf⟩ := Option.isSome_iff_exists.mp hs
  have hi : f.id = e.id := by simpa using List.find?_some hf
  simp [pathTo, hf, h.eq_of_id_eq (List.mem_of_find?_eq_some hf) he hi]

theorem pathTo_eq (h : IsForest entries) (hp : IsPath entries (q ++ [g])) :
    pathTo entries g = q ++ [g] := by
  have ⟨e, he, hi, hpe⟩ := h.exists_of_isPath_concat hp
  rw [← hi, h.pathTo_id he, hpe, hi]

theorem eq_of_path_eq (h : IsForest entries) (he : e ∈ entries) (hf : f ∈ entries) (hp : e.path = f.path) :
    e = f := by
  have hl := h.getLast?_path he
  rw [hp, h.getLast?_path hf, Option.some.injEq] at hl
  exact h.eq_of_id_eq he hf hl.symm

-- Nothing is inside a group without children.
theorem eq_of_path_prefix (h : IsForest entries) (he : e ∈ entries) (hf : f ∈ entries) (hc : e.children = [])
    (hp : e.path <+: f.path) : e = f := by
  have ⟨t, ht⟩ := hp
  cases t
  case nil => exact h.eq_of_path_eq he hf (by simpa using ht)
  case cons g t =>
    have hg : e.path ++ [g] <+: f.path := ⟨t, by simpa using ht⟩
    have ⟨k, hk, _, hpk⟩ := h.exists_of_isPath_concat (h.isPath_of_prefix (isPath_path hf) hg)
    cases h.parent k hk
    case inl hr =>
      rw [hpk] at hr
      simpa [h.path_ne_nil he] using congrArg List.length hr
    case inr hr =>
      have ⟨o, ho, hpo, hm⟩ := hr
      rw [hpk] at hpo
      have heo := h.eq_of_path_eq he ho (List.append_inj_left' hpo rfl)
      rw [← heo, hc] at hm
      cases hm

end IsForest

-- What holds of a group when it holds of the groups directly inside it holds of all groups.
theorem inner_induction {entries : List Entry} {motive : (e : Entry) → e ∈ entries → Prop}
    (step : ∀ e he, (∀ f hf, f.path = e.path ++ [f.id] → motive f hf) → motive e he) (e : Entry) (he : e ∈ entries) :
    motive e he := by
  have le_depth {e : Entry} (he : e ∈ entries) : e.path.length ≤ (entries.map (·.path.length)).max?.getD 0 :=
    List.le_max?_getD_of_mem (List.mem_map_of_mem he)
  induction hk : (entries.map (·.path.length)).max?.getD 0 - e.path.length using Nat.strongRecOn generalizing e
  case ind k hi =>
    refine step e he fun f hf hp => hi _ ?_ f hf rfl
    have hl := le_depth hf
    have := le_depth he
    have hp := congrArg List.length hp
    rw [List.length_append, List.length_singleton] at hp
    omega

theorem isPath_ownerPath (entries : List Entry) (node : String) :
    IsPath entries (ownerPath entries node) := by
  unfold ownerPath owner?
  split
  case h_1 e he => exact .inr ⟨e, List.mem_of_find?_eq_some he, rfl⟩
  case h_2 => exact .inl rfl

end LayeredDiagram.Group
