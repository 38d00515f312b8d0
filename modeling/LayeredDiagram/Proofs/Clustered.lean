import Mathlib.Data.List.Basic
import Mathlib.Data.List.Nodup
import Mathlib.Data.List.Perm.Basic
import Mathlib.Data.List.Perm.Subperm
/-!
Lists in which the entries with some property stand next to each other, lists put together from parts, and tables
with unique keys.
-/

namespace LayeredDiagram

variable {β γ κ : Type} {p : β → Prop} {l l₁ l₂ : List β} {a b c : β}

-- Between two entries with a property all entries have it.
def Clustered (p : β → Prop) (l : List β) : Prop :=
  ∀ a b c, [a, b, c].Sublist l → p a → p c → p b

namespace Clustered

theorem sublist (h : Clustered p l₂) (hs : l₁.Sublist l₂) : Clustered p l₁ :=
  fun a b c hl => h a b c (hl.trans hs)

theorem tail (h : Clustered p (a :: l)) : Clustered p l :=
  h.sublist (List.sublist_cons_self a l)

-- An entry with the property is followed by others until the first one without it.
theorem not_of_not_head (h : Clustered p (a :: b :: l)) (ha : p a) (hb : ¬p b) : ∀ c ∈ l, ¬p c := by
  intro c hc hp
  refine hb (h a b c ?_ ha hp)
  exact .cons_cons a (.cons_cons b (List.singleton_sublist.mpr hc))

-- The entries with the property form one block.
theorem exists_eq_append (h : Clustered p l) :
    ∃ l₁ l₂ l₃, l = l₁ ++ l₂ ++ l₃ ∧ (∀ a ∈ l₂, p a) ∧ (∀ a ∈ l₁ ++ l₃, ¬p a) := by
  classical
  induction l
  case nil => exact ⟨[], [], [], by simp⟩
  case cons a l hi =>
    have ⟨l₁, l₂, l₃, hl, h₂, h₁₃⟩ := hi h.tail
    by_cases ha : p a
    case neg =>
      exact ⟨a :: l₁, l₂, l₃, by simp [hl], h₂, by simpa [ha] using h₁₃⟩
    case pos =>
      cases l₁
      case nil => exact ⟨[], a :: l₂, l₃, by simp [hl], by simpa [ha] using h₂, h₁₃⟩
      case cons b l₁ =>
        have hb : ¬p b := h₁₃ b (by simp)
        have hn := (hl ▸ h).not_of_not_head ha hb
        refine ⟨[], [a], b :: l₁ ++ l₂ ++ l₃, by simp [hl], by simpa using ha, ?_⟩
        intro c hc
        cases List.mem_cons.mp hc
        case inl hc => exact hc ▸ hb
        case inr hc => exact hn c hc

end Clustered

-- Three entries of a list put together from parts, of which the outer two belong together, come from one
-- part if different parts hold nothing that belongs together.
theorem exists_mem_of_triple_sublist {parts : List γ} {f : γ → List β} {r : β → β → Prop}
    (hp : parts.Pairwise fun x y => ∀ a ∈ f x, ∀ c ∈ f y, ¬r a c)
    (hs : [a, b, c].Sublist (parts.flatMap f)) (hr : r a c) : ∃ x ∈ parts, [a, b, c].Sublist (f x) := by
  induction parts
  case nil => simp at hs
  case cons x parts hi =>
    have ⟨hx, hp⟩ := List.pairwise_cons.mp hp
    rw [List.flatMap_cons, List.sublist_append_iff] at hs
    have ⟨l₁, l₂, he, h₁, h₂⟩ := hs
    have apart (ha : a ∈ f x) (hc : c ∈ l₂) : False := by
      have ⟨y, hy, hc⟩ := List.mem_flatMap.mp (h₂.subset hc)
      exact hx y hy a ha c hc hr
    match l₁, l₂, he with
    | [], _, rfl =>
      have ⟨y, hy, h⟩ := hi hp h₂
      exact ⟨y, List.mem_cons_of_mem _ hy, h⟩
    | [_], _, rfl => exact (apart (h₁.subset (by simp)) (by simp)).elim
    | [_, _], _, rfl => exact (apart (h₁.subset (by simp)) (by simp)).elim
    | [_, _, _], [], rfl => exact ⟨x, by simp, h₁⟩

-- Of two entries of a list one comes before the other.
theorem exists_eq_append_of_ne (ha : a ∈ l) (hb : b ∈ l) (hn : a ≠ b) :
    (∃ l₁ m l₂, l = l₁ ++ a :: (m ++ b :: l₂)) ∨ ∃ l₁ m l₂, l = l₁ ++ b :: (m ++ a :: l₂) := by
  have ⟨l₁, l₂, h⟩ := List.append_of_mem ha
  rw [h, List.mem_append, List.mem_cons] at hb
  rcases hb with hb | hb | hb
  · have ⟨l₃, m, h'⟩ := List.append_of_mem hb
    exact .inr ⟨l₃, m, l₂, by simp [h, h']⟩
  · exact absurd hb.symm hn
  · have ⟨m, l₃, h'⟩ := List.append_of_mem hb
    exact .inl ⟨l₁, m, l₃, by simp [h, h']⟩

theorem rel_or_rel_of_pairwise {r : β → β → Prop} (h : l.Pairwise r) (ha : a ∈ l) (hb : b ∈ l) (hn : a ≠ b) :
    r a b ∨ r b a := by
  have sublist {a b : β} {l₁ m l₂ : List β} : [a, b].Sublist (l₁ ++ a :: (m ++ b :: l₂)) :=
    List.sublist_append_of_sublist_right (.cons_cons a (List.sublist_append_of_sublist_right (by simp)))
  rw [List.pairwise_iff_forall_sublist] at h
  rcases exists_eq_append_of_ne ha hb hn with ⟨l₁, m, l₂, he⟩ | ⟨l₁, m, l₂, he⟩
  · exact .inl (h (he ▸ sublist))
  · exact .inr (h (he ▸ sublist))

theorem mem_of_lookup [BEq β] [LawfulBEq β] {table : List (β × γ)} {v : γ} (h : table.lookup a = some v) :
    (a, v) ∈ table := by
  have ⟨_, _, he, _⟩ := List.lookup_eq_some_iff.mp h
  simp [he]

theorem lookup_of_mem [BEq β] [LawfulBEq β] {table : List (β × γ)} {v : γ} (hn : (table.map (·.1)).Nodup)
    (h : (a, v) ∈ table) : table.lookup a = some v := by
  obtain ⟨before, behind, rfl⟩ := List.append_of_mem h
  refine List.lookup_eq_some_iff.mpr ⟨before, behind, rfl, fun p hp => ?_⟩
  rw [List.map_append, List.map_cons, List.nodup_append] at hn
  exact bne_iff_ne.mpr (hn.right.right p.1 (List.mem_map_of_mem hp) a (by simp)).symm

theorem nodup_eraseDups [BEq β] [LawfulBEq β] : (l : List β) → l.eraseDups.Nodup
  | [] => by simp
  | a :: l => by
    rw [List.eraseDups_cons, List.nodup_cons]
    have : (l.filter fun b => !b == a).length < l.length + 1 :=
      Nat.lt_succ_of_le (List.length_filter_le ..)
    exact ⟨by simp, nodup_eraseDups _⟩
termination_by l => l.length

-- A list is put together from its entries without a key and those with each of the keys.
theorem perm_filter_keys [DecidableEq κ] {key : β → Option κ} {keys : List κ} (hn : keys.Nodup)
    (h : ∀ a ∈ l, ∀ k, key a = some k → k ∈ keys) :
    (l.filter (key · = none) ++ keys.flatMap fun k => l.filter (key · = some k)).Perm l := by
  induction keys generalizing l
  case nil =>
    have hk : ∀ a ∈ l, key a = none := fun a ha => Option.eq_none_iff_forall_not_mem.mpr fun k hk => by
      simpa using h a ha k hk
    have hf : l.filter (key · = none) = l := List.filter_eq_self.mpr (by simpa using hk)
    simp [hf]
  case cons k keys hi =>
    have ⟨hk, hn⟩ := List.nodup_cons.mp hn
    have hr := hi (l := l.filter (key · ≠ some k)) hn (by grind)
    have hnone : (l.filter (key · ≠ some k)).filter (key · = none) = l.filter (key · = none) := by
      rw [List.filter_filter]
      exact List.filter_congr (by grind)
    have hsome : (keys.flatMap fun j => (l.filter (key · ≠ some k)).filter (key · = some j)) =
        keys.flatMap fun j => l.filter (key · = some j) := by
      apply List.flatMap_congr
      intro j hj
      rw [List.filter_filter]
      exact List.filter_congr (by grind)
    rw [hnone, hsome] at hr
    rw [List.flatMap_cons]
    refine .trans ?_ (List.filter_append_perm (key · = some k) l)
    refine (List.perm_append_comm_assoc ..).trans (.append_left _ ?_)
    simpa using hr

end LayeredDiagram
