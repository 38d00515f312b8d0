import LayeredDiagram.Layout.Feedback
import Mathlib.Algebra.Order.BigOperators.Group.List
import Mathlib.Algebra.Order.Field.Rat
import Mathlib.Tactic.Linarith
/-!
Weights of arcs in exact arithmetic: the weight of the arcs whose ends have a property, and that it does not
change where parallel arcs are added up.
-/

namespace LayeredDiagram.Feedback

variable {κ : Type} {arcs : List (Arc κ Rat)} {a : Arc κ Rat} {p q : κ → κ → Prop}

section Totals

open Classical

-- The weight of the arcs whose ends have a property.
noncomputable def total (arcs : List (Arc κ Rat)) (p : κ → κ → Prop) : Rat :=
  (arcs.map fun a => if p a.source a.target then a.weight else 0).sum

theorem total_cons (a : Arc κ Rat) (arcs : List (Arc κ Rat)) (p : κ → κ → Prop) :
    total (a :: arcs) p = total [a] p + total arcs p := by
  simp [total]

theorem total_singleton_of (h : p a.source a.target) : total [a] p = a.weight := by
  simp [total, h]

theorem total_singleton_of_not (h : ¬p a.source a.target) : total [a] p = 0 := by
  simp [total, h]

theorem total_congr (h : ∀ a ∈ arcs, p a.source a.target ↔ q a.source a.target) : total arcs p = total arcs q := by
  exact congrArg List.sum (List.map_congr_left fun a ha => if_congr (h a ha) rfl rfl)

theorem total_or (h : ∀ a ∈ arcs, p a.source a.target → ¬q a.source a.target) :
    total arcs (fun s t => p s t ∨ q s t) = total arcs p + total arcs q := by
  rw [total, total, total, ← List.sum_map_add]
  refine congrArg List.sum (List.map_congr_left fun a ha => ?_)
  by_cases hp : p a.source a.target
  case pos => rw [if_pos (.inl hp), if_pos hp, if_neg (h a ha hp), add_zero]
  case neg =>
    rw [if_neg hp, zero_add]
    simp only [hp, false_or]

theorem total_eq_zero (h : ∀ a ∈ arcs, ¬p a.source a.target) : total arcs p = 0 := by
  refine List.sum_eq_zero fun w hw => ?_
  obtain ⟨a, ha, rfl⟩ := List.mem_map.mp hw
  rw [if_neg (h a ha)]

theorem total_nonneg (hw : ∀ a ∈ arcs, 0 ≤ a.weight) (p : κ → κ → Prop) : 0 ≤ total arcs p := by
  refine List.sum_nonneg fun w hm => ?_
  obtain ⟨a, ha, rfl⟩ := List.mem_map.mp hm
  split
  case isTrue => exact hw a ha
  case isFalse => exact le_rfl

theorem weight_le_total (hw : ∀ a ∈ arcs, 0 ≤ a.weight) (ha : a ∈ arcs) (hp : p a.source a.target) :
    a.weight ≤ total arcs p := by
  refine List.single_le_sum (fun w hm => ?_) _ (List.mem_map.mpr ⟨a, ha, if_pos hp⟩)
  obtain ⟨b, hb, rfl⟩ := List.mem_map.mp hm
  split
  case isTrue => exact hw b hb
  case isFalse => exact le_rfl

-- The arcs at some vertices, vertex by vertex; an end of an arc says at which of them it is.
theorem sum_total_at (endOf : κ → κ → κ) {vertices : List κ} (hn : vertices.Nodup) (p : κ → κ → Prop) :
    (vertices.map fun v => total arcs fun s t => endOf s t = v ∧ p s t).sum =
      total arcs fun s t => endOf s t ∈ vertices ∧ p s t := by
  induction vertices
  case nil => exact (total_eq_zero (by simp)).symm
  case cons v vertices hi =>
    obtain ⟨hv, hn⟩ := List.nodup_cons.mp hn
    have hdisjoint : ∀ a ∈ arcs, endOf a.source a.target = v ∧ p a.source a.target →
        ¬(endOf a.source a.target ∈ vertices ∧ p a.source a.target) :=
      fun a _ h hm => hv (h.left ▸ hm.left)
    rw [List.map_cons, List.sum_cons, hi hn, ← total_or hdisjoint]
    exact total_congr fun a _ => by rw [List.mem_cons, or_and_right]

end Totals

section Merging

variable [DecidableEq κ] {merged : List (Arc κ Rat)} {u v : κ}

theorem total_addArc (a : Arc κ Rat) (merged : List (Arc κ Rat)) (p : κ → κ → Prop) :
    total (addArc a merged) p = total [a] p + total merged p := by
  induction merged
  case nil => simp [addArc, total]
  case cons b merged hi =>
    rw [addArc, total_cons b merged]
    split
    case isFalse => rw [total_cons, hi, add_left_comm]
    case isTrue h =>
      rw [total_cons, ← add_assoc]
      congr 1
      let sum : Arc κ Rat := { b with weight := b.weight + a.weight }
      by_cases hp : p b.source b.target
      case pos =>
        have ha : p a.source a.target := h.left ▸ h.right ▸ hp
        rw [total_singleton_of (a := sum) hp, total_singleton_of ha, total_singleton_of hp]
        exact add_comm ..
      case neg =>
        have ha : ¬p a.source a.target := h.left ▸ h.right ▸ hp
        rw [total_singleton_of_not (a := sum) hp, total_singleton_of_not ha, total_singleton_of_not hp, add_zero]

-- Adding up parallel arcs changes no weight.
theorem total_merge (arcs : List (Arc κ Rat)) (p : κ → κ → Prop) : total (merge arcs) p = total arcs p := by
  have total_foldl (merged : List (Arc κ Rat)) :
      total (arcs.foldl (fun merged a => addArc a merged) merged) p = total merged p + total arcs p := by
    induction arcs generalizing merged
    case nil => simp [total]
    case cons a arcs hi => rw [List.foldl_cons, hi, total_addArc, total_cons a arcs, add_left_comm, add_assoc]
  rw [merge, total_foldl]
  simp [total]

def Arc.ends (a : Arc κ Rat) : κ × κ :=
  (a.source, a.target)

theorem mem_ends_addArc {x : κ × κ} (h : x ∈ (addArc a merged).map Arc.ends) :
    x = a.ends ∨ x ∈ merged.map Arc.ends := by
  induction merged
  case nil => simpa [addArc] using h
  case cons b merged hi =>
    rw [addArc] at h
    split at h
    case isTrue => exact .inr h
    case isFalse =>
      cases List.mem_cons.mp h
      case inl h => exact .inr (List.mem_cons.mpr (.inl h))
      case inr h => exact (hi h).imp_right (List.mem_cons_of_mem _)

theorem nodup_ends_addArc (h : (merged.map Arc.ends).Nodup) : ((addArc a merged).map Arc.ends).Nodup := by
  induction merged
  case nil => simp [addArc]
  case cons b merged hi =>
    rw [addArc]
    split
    case isTrue => exact h
    case isFalse hne =>
      obtain ⟨hb, h⟩ := List.nodup_cons.mp h
      refine List.nodup_cons.mpr ⟨fun hm => ?_, hi h⟩
      cases mem_ends_addArc hm
      case inl hm => exact hne (Prod.mk.inj hm)
      case inr hm => exact hb hm

theorem nodup_ends_merge (arcs : List (Arc κ Rat)) : ((merge arcs).map Arc.ends).Nodup := by
  have nodup_foldl (merged : List (Arc κ Rat)) (h : (merged.map Arc.ends).Nodup) :
      ((arcs.foldl (fun merged a => addArc a merged) merged).map Arc.ends).Nodup := by
    induction arcs generalizing merged
    case nil => exact h
    case cons a arcs hi => exact hi _ (nodup_ends_addArc h)
  exact nodup_foldl [] List.nodup_nil

-- With one arc for each pair of ends, the arc that is found carries all the weight between them.
theorem getD_weight? (h : (merged.map Arc.ends).Nodup) (u v : κ) :
    (weight? merged u v).getD 0 = total merged fun s t => s = u ∧ t = v := by
  induction merged
  case nil => simp [weight?, total]
  case cons b merged hi =>
    obtain ⟨hb, h⟩ := List.nodup_cons.mp h
    rw [total_cons]
    by_cases he : b.source = u ∧ b.target = v
    case pos =>
      have hrest : total merged (fun s t => s = u ∧ t = v) = 0 := by
        refine total_eq_zero fun a ha hend => hb (List.mem_map.mpr ⟨a, ha, ?_⟩)
        rw [Arc.ends, Arc.ends, hend.left, hend.right, he.left, he.right]
      rw [total_singleton_of (p := fun s t => s = u ∧ t = v) he, hrest, add_zero]
      simp [weight?, he]
    case neg =>
      rw [total_singleton_of_not (p := fun s t => s = u ∧ t = v) he, zero_add, ← hi h]
      simp [weight?, he]

end Merging

end LayeredDiagram.Feedback
