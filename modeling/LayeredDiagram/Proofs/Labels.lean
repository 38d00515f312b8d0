import LayeredDiagram.Layout.Flow
import Mathlib.Data.List.Nodup
import Mathlib.Data.List.Perm.Subperm
import Mathlib.Logic.Relation
import Mathlib.Tactic.Linarith
/-!
The search for shortest distances. It ends with labels that no step lightens, or with a closed route of
negative weight. Walks repeat no vertex, and what a walk adds to the distance of any vertex on it is at most
what the last vertex got from it, so that a walk that comes back to a vertex has lost weight on the way. A
step that still lightens a label after some rounds comes from a vertex whose walk has a step from each of
them, but no walk is longer than there are steps.
-/

namespace LayeredDiagram.Flow

variable {κ : Type} {steps todo walk cycle : List (Step κ)} {s t : Step κ} {u v w : κ}

section Routes

-- A walk from one vertex to another, last step first.
def IsRoute (steps : List (Step κ)) (u : κ) : κ → List (Step κ) → Prop
  | v, [] => u = v
  | v, s :: walk => s ∈ steps ∧ s.target = v ∧ IsRoute steps u s.source walk

def weight (walk : List (Step κ)) : Int :=
  (walk.map (·.weight)).sum

theorem weight_cons : weight (s :: walk) = s.weight + weight walk := by
  simp [weight]

theorem IsRoute.subset (h : IsRoute steps u v walk) : walk ⊆ steps := by
  induction walk generalizing v
  case nil => simp
  case cons s walk hi => exact List.cons_subset.mpr ⟨h.left, hi h.right.right⟩

-- Along a route a potential changes by at most its weight if it does so along each of its steps.
theorem IsRoute.le_add_weight {x : κ → Int} (h : IsRoute steps u v walk)
    (hx : ∀ s ∈ walk, x s.target ≤ x s.source + s.weight) : x v ≤ x u + weight walk := by
  induction walk generalizing v
  case nil => simp [weight, show u = v from h]
  case cons s walk hi =>
    have ⟨_, ht, h⟩ := h
    have ⟨hs, hx⟩ := List.forall_mem_cons.mp hx
    have := hi h hx
    rw [weight_cons, ← ht]
    linarith

theorem IsRoute.sum_across {x : κ → Int} (h : IsRoute steps u v walk) :
    (walk.map fun s => x s.target - x s.source).sum = x v - x u := by
  induction walk generalizing v
  case nil => simp [show u = v from h]
  case cons s walk hi =>
    have ⟨_, ht, h⟩ := h
    rw [List.map_cons, List.sum_cons, hi h, ht]
    linarith

theorem IsRoute.transGen {r : κ → κ → Prop} (h : IsRoute steps u v walk)
    (hr : ∀ s ∈ steps, r s.source s.target) (hn : walk ≠ []) : Relation.TransGen r u v := by
  induction walk generalizing v
  case nil => exact absurd rfl hn
  case cons s walk hi =>
    obtain ⟨hs, rfl, h⟩ := h
    by_cases hw : walk = []
    case pos =>
      subst hw
      exact h ▸ .single (hr s hs)
    case neg => exact (hi h hw).tail (hr s hs)

end Routes

variable [BEq κ] [Hashable κ] {labels labels' : Labels κ} {d : Int} {k rounds : Nat}
variable {changed changed' : Bool} {found : Improvement κ}

section Walks

-- The step does not lighten the label of its target.
def Holds (labels : Labels κ) (s : Step κ) : Prop :=
  (labels.label s.target).distance ≤ (labels.label s.source).distance + s.weight

-- What is left of a distance at each vertex of a walk is enough for the distance of the vertex.
def Tight (labels : Labels κ) : Int → List (Step κ) → Prop
  | _, [] => True
  | d, s :: walk => (labels.label s.source).distance + s.weight ≤ d ∧ Tight labels (d - s.weight) walk

theorem Tight.mono (h : Tight labels d walk) (hd : ∀ v, (labels'.label v).distance ≤ (labels.label v).distance) :
    Tight labels' d walk := by
  induction walk generalizing d
  case nil => trivial
  case cons s walk hi => exact ⟨(Int.add_le_add_right (hd _) _).trans h.left, hi h.right⟩

-- Labels with walks that end at their vertices and repeat none.
structure Sound (steps : List (Step κ)) (labels : Labels κ) : Prop where
  route : ∀ v, ∃ u, IsRoute steps u v ((labels.label v).walk)
  nodup : ∀ v, (v :: ((labels.label v).walk).map (·.source)).Nodup
  tight : ∀ v, Tight labels ((labels.label v).distance) ((labels.label v).walk)

theorem Sound.of_walk_eq_nil (h : ∀ v, (labels.label v).walk = []) : Sound steps labels where
  route v := ⟨v, by simp [h, IsRoute]⟩
  nodup v := by simp [h]
  tight v := by simp [h, Tight]

theorem Sound.length_walk_le (h : Sound steps labels) (v : κ) : ((labels.label v).walk).length ≤ steps.length := by
  have ⟨u, hu⟩ := h.route v
  have hn := (List.nodup_cons.mp (h.nodup v)).right.of_map
  exact (List.subperm_of_subset hn hu.subset).length_le

-- The label of the target is replaced by the one that goes over the step.
def Labels.lighten (labels : Labels κ) (s : Step κ) : Labels κ :=
  labels.insert s.target ⟨(labels.label s.source).distance + s.weight, s :: (labels.label s.source).walk⟩

variable [LawfulBEq κ]

omit [Hashable κ] in
theorem sinceVisit?_eq_none_iff : sinceVisit? v walk = none ↔ v ∉ walk.map (·.source) := by
  induction walk
  case nil => simp [sinceVisit?]
  case cons s walk hi =>
    by_cases h : s.source = v
    case pos => simp [sinceVisit?, h]
    case neg => simp [sinceVisit?, h, hi, Ne.symm h]

omit [Hashable κ] in
theorem sinceVisit?_cons_eq_some (h : sinceVisit? v (s :: walk) = some cycle) :
    (s.source = v ∧ cycle = [s]) ∨ ∃ rest, sinceVisit? v walk = some rest ∧ cycle = s :: rest := by
  by_cases hs : s.source = v
  case pos =>
    simp only [sinceVisit?, hs, beq_self_eq_true, if_true, Option.some.injEq] at h
    exact .inl ⟨hs, h.symm⟩
  case neg =>
    simp only [sinceVisit?, beq_iff_eq, hs, if_false, Option.map_eq_some_iff] at h
    have ⟨rest, h, he⟩ := h
    exact .inr ⟨rest, h, he.symm⟩

omit [Hashable κ] in
theorem isPrefix_of_sinceVisit? (h : sinceVisit? v walk = some cycle) : cycle <+: walk := by
  induction walk generalizing cycle
  case nil => simp [sinceVisit?] at h
  case cons s walk hi =>
    rcases sinceVisit?_cons_eq_some h with ⟨_, rfl⟩ | ⟨rest, hr, rfl⟩
    · exact ⟨walk, rfl⟩
    · exact (List.prefix_cons_inj s).mpr (hi hr)

omit [Hashable κ] in
theorem IsRoute.since (hr : IsRoute steps u w walk) (h : sinceVisit? v walk = some cycle) :
    IsRoute steps v w cycle := by
  induction walk generalizing w cycle
  case nil => simp [sinceVisit?] at h
  case cons s walk hi =>
    have ⟨hs, ht, hr⟩ := hr
    rcases sinceVisit?_cons_eq_some h with ⟨hv, rfl⟩ | ⟨rest, hv, rfl⟩
    · exact ⟨hs, ht, hv.symm⟩
    · exact ⟨hs, ht, hi hr hv⟩

theorem Tight.since (ht : Tight labels d walk) (h : sinceVisit? v walk = some cycle) :
    (labels.label v).distance + weight cycle ≤ d := by
  induction walk generalizing d cycle
  case nil => simp [sinceVisit?] at h
  case cons s walk hi =>
    rcases sinceVisit?_cons_eq_some h with ⟨hv, rfl⟩ | ⟨rest, hv, rfl⟩
    · simpa [weight, hv] using ht.left
    · have := hi ht.right hv
      rw [weight_cons]
      linarith

theorem label_lighten (v : κ) : (labels.lighten s).label v = if s.target == v then
    ⟨(labels.label s.source).distance + s.weight, s :: (labels.label s.source).walk⟩ else labels.label v :=
  Std.HashMap.getD_insert

theorem distance_lighten_le (h : ¬Holds labels s) (v : κ) :
    ((labels.lighten s).label v).distance ≤ (labels.label v).distance := by
  rw [label_lighten]
  split
  case isTrue ht => exact eq_of_beq ht ▸ (Int.not_le.mp h).le
  case isFalse => exact le_rfl

-- The step goes on from a walk to its source.
theorem exists_isRoute_lighten (h : ∀ v, ∃ u, IsRoute steps u v (labels.label v).walk) (hs : s ∈ steps) (v : κ) :
    ∃ u, IsRoute steps u v ((labels.lighten s).label v).walk := by
  rw [label_lighten]
  split
  case isTrue hv =>
    have ⟨u, hu⟩ := h s.source
    exact ⟨u, hs, eq_of_beq hv, hu⟩
  case isFalse => exact h v

theorem Sound.lighten (h : Sound steps labels) (hs : s ∈ steps) (hl : ¬Holds labels s)
    (hn : s.target ∉ (s :: (labels.label s.source).walk).map (·.source)) : Sound steps (labels.lighten s) := by
  constructor
  case route => exact exists_isRoute_lighten h.route hs
  case nodup =>
    intro v
    rw [label_lighten]
    split
    case isTrue hv => exact List.nodup_cons.mpr ⟨eq_of_beq hv ▸ hn, h.nodup s.source⟩
    case isFalse => exact h.nodup v
  case tight =>
    intro v
    rw [label_lighten]
    have hd := distance_lighten_le hl
    split
    case isTrue hv =>
      refine ⟨Int.add_le_add_right (hd _) _, ?_⟩
      rw [Int.add_sub_cancel]
      exact (h.tight s.source).mono hd
    case isFalse => exact (h.tight v).mono hd

end Walks

section Rounds

-- A step that still lightens a label comes from a vertex with a long walk.
def Late (k : Nat) (labels : Labels κ) (s : Step κ) : Prop :=
  Holds labels s ∨ k ≤ (labels.label s.source).walk.length

variable [LawfulBEq κ]

theorem Late.lighten (ht : Late k labels t) (hk : k ≤ (labels.label s.source).walk.length + 1)
    (hl : ¬Holds labels s) : Late k (labels.lighten s) t := by
  have hd := distance_lighten_le hl t.target
  by_cases hs : s.target = t.source
  case pos => exact .inr (by simpa [label_lighten, hs] using hk)
  case neg =>
    have hd' : (labels.lighten s).label t.source = labels.label t.source := by simp [label_lighten, hs]
    cases ht
    case inl ht =>
      left
      rw [Holds, hd']
      exact hd.trans ht
    case inr ht => exact .inr (hd' ▸ ht)

theorem holds_lighten (hn : s.target ≠ s.source) : Holds (labels.lighten s) s := by
  simp [Holds, label_lighten, hn]

omit [LawfulBEq κ] in
theorem relax_cons : relax (s :: todo) labels changed =
    if (labels.label s.source).distance + s.weight < (labels.label s.target).distance then
      match sinceVisit? s.target (s :: (labels.label s.source).walk) with
      | some cycle => .error ⟨cycle, labels⟩
      | none => relax todo (labels.lighten s) true
    else relax todo labels changed :=
  rfl

-- A round that goes through makes up for its steps one by one.
theorem relax_ok (hs : Sound steps labels) (ht : todo ⊆ steps)
    (hl : ∀ s ∈ steps, Late (k + 1) labels s ∨ (s ∈ todo ∧ Late k labels s))
    (h : relax todo labels changed = .ok (labels', changed')) :
    Sound steps labels' ∧ ∀ s ∈ steps, Late (k + 1) labels' s := by
  induction todo generalizing labels changed
  case nil =>
    simp only [relax, Except.ok.injEq, Prod.mk.injEq] at h
    exact h.left ▸ ⟨hs, fun s hm => (hl s hm).resolve_right (by simp)⟩
  case cons s todo hi =>
    have ⟨hsm, ht⟩ := List.cons_subset.mp ht
    rw [relax_cons] at h
    split at h
    case isTrue hlt =>
      have hn : ¬Holds labels s := Int.not_le.mpr hlt
      split at h
      case h_1 => cases h
      case h_2 hv =>
        rw [sinceVisit?_eq_none_iff] at hv
        have hk : k ≤ (labels.label s.source).walk.length := by
          rcases hl s hsm with hl | ⟨_, hl⟩ <;> have := hl.resolve_left hn <;> omega
        refine hi (hs.lighten hsm hn hv) ht (fun t htm => ?_) h
        rcases hl t htm with hl | ⟨htt, hl⟩
        · exact .inl (hl.lighten (by omega) hn)
        · cases List.mem_cons.mp htt
          case inl hts =>
            subst hts
            refine .inl (.inl (holds_lighten fun h => hv ?_))
            exact List.mem_map.mpr ⟨t, List.mem_cons_self, h.symm⟩
          case inr htt => exact .inr ⟨htt, hl.lighten (by omega) hn⟩
    case isFalse hlt =>
      refine hi hs ht (fun t htm => ?_) h
      rcases hl t htm with hl | ⟨htt, hl⟩
      · exact .inl hl
      · cases List.mem_cons.mp htt
        case inl hts => exact .inl (.inl (hts ▸ Int.not_lt.mp hlt))
        case inr htt => exact .inr ⟨htt, hl⟩

omit [LawfulBEq κ] in
theorem relax_unchanged (h : relax todo labels changed = .ok (labels', false)) :
    changed = false ∧ labels' = labels ∧ ∀ s ∈ todo, Holds labels s := by
  induction todo generalizing labels changed
  case nil =>
    simp only [relax, Except.ok.injEq, Prod.mk.injEq] at h
    exact ⟨h.right, h.left.symm, by simp⟩
  case cons s todo hi =>
    rw [relax_cons] at h
    split at h
    case isTrue =>
      split at h
      case h_1 => cases h
      case h_2 => exact absurd (hi h).left (by simp)
    case isFalse hlt =>
      obtain ⟨hc, he, hh⟩ := hi h
      exact ⟨hc, he, List.forall_mem_cons.mpr ⟨Int.not_lt.mp hlt, hh⟩⟩

-- A closed route of negative weight that repeats no vertex.
structure IsNegative (steps cycle : List (Step κ)) : Prop where
  route : ∃ v, IsRoute steps v v cycle
  nodup : (cycle.map (·.source)).Nodup
  weight_neg : weight cycle < 0

theorem relax_error (hs : Sound steps labels) (ht : todo ⊆ steps)
    (h : relax todo labels changed = .error found) : IsNegative steps found.cycle := by
  induction todo generalizing labels changed
  case nil => simp [relax] at h
  case cons s todo hi =>
    obtain ⟨hsm, ht⟩ := List.cons_subset.mp ht
    rw [relax_cons] at h
    split at h
    case isTrue hlt =>
      split at h
      case h_1 cycle hv =>
        obtain ⟨u, hu⟩ := hs.route s.source
        have hr : IsRoute steps u s.target (s :: (labels.label s.source).walk) := ⟨hsm, rfl, hu⟩
        have hd : Tight labels ((labels.label s.source).distance + s.weight)
            (s :: (labels.label s.source).walk) := by
          refine ⟨le_rfl, ?_⟩
          rw [Int.add_sub_cancel]
          exact hs.tight s.source
        have hn : ((s :: (labels.label s.source).walk).map (·.source)).Nodup := hs.nodup s.source
        cases h
        refine ⟨⟨s.target, hr.since hv⟩, hn.sublist ((isPrefix_of_sinceVisit? hv).sublist.map _), ?_⟩
        have := hd.since hv
        linarith
      case h_2 hv =>
        rw [sinceVisit?_eq_none_iff] at hv
        exact hi (hs.lighten hsm (Int.not_le.mpr hlt) hv) ht h
    case isFalse => exact hi hs ht h

-- By induction on the rounds: after as many rounds as there are steps, no walk is long enough to be late.
theorem settle_ok (hs : Sound steps labels) (hl : ∀ s ∈ steps, Late k labels s)
    (hk : steps.length < k + rounds) (h : settle steps rounds labels = .ok labels') :
    ∀ s ∈ steps, Holds labels' s := by
  induction rounds generalizing labels k
  case zero =>
    simp only [settle, Except.ok.injEq] at h
    subst h
    intro s hm
    have := hs.length_walk_le s.source
    exact (hl s hm).resolve_right (by omega)
  case succ rounds hi =>
    simp only [settle] at h
    split at h
    case h_1 => cases h
    case h_2 hr =>
      have ⟨hs, hl⟩ := relax_ok hs (List.Subset.refl _) (fun s hm => .inr ⟨hm, hl s hm⟩) hr
      exact hi hs hl (by omega) h
    case h_3 hr =>
      have ⟨_, he, hh⟩ := relax_unchanged hr
      cases h
      exact he ▸ hh

theorem settle_error (hs : Sound steps labels) (h : settle steps rounds labels = .error found) :
    IsNegative steps found.cycle := by
  induction rounds generalizing labels
  case zero => simp [settle] at h
  case succ rounds hi =>
    simp only [settle] at h
    split at h
    case h_1 hr =>
      cases h
      exact relax_error hs (List.Subset.refl _) hr
    case h_2 hr =>
      have hs := (relax_ok (k := 0) hs (List.Subset.refl _) (fun s hm => .inr ⟨hm, .inr (Nat.zero_le _)⟩) hr).left
      exact hi hs h
    case h_3 => cases h

end Rounds

section Distances

-- Every distance is that of the walk, and that of the walk without steps or less.
structure Attained (steps : List (Step κ)) (labels : Labels κ) : Prop where
  route : ∀ v, ∃ u, IsRoute steps u v (labels.label v).walk
  weight_eq : ∀ v, weight (labels.label v).walk = (labels.label v).distance
  nonpos : ∀ v, (labels.label v).distance ≤ 0

theorem Attained.empty : Attained steps ∅ where
  route v := ⟨v, by simp [Labels.label, IsRoute]⟩
  weight_eq v := by simp [Labels.label, weight]
  nonpos v := by simp [Labels.label]

variable [LawfulBEq κ]

theorem Attained.lighten (h : Attained steps labels) (hs : s ∈ steps) (hl : ¬Holds labels s) :
    Attained steps (labels.lighten s) where
  route := exists_isRoute_lighten h.route hs
  weight_eq v := by
    rw [label_lighten]
    split
    case isTrue => rw [weight_cons, h.weight_eq, Int.add_comm]
    case isFalse => exact h.weight_eq v
  nonpos v := (distance_lighten_le hl v).trans (h.nonpos v)

theorem Attained.relax (h : Attained steps labels) (ht : todo ⊆ steps)
    (hr : Flow.relax todo labels changed = .ok (labels', changed')) : Attained steps labels' := by
  induction todo generalizing labels changed
  case nil =>
    simp only [Flow.relax, Except.ok.injEq, Prod.mk.injEq] at hr
    exact hr.left ▸ h
  case cons s todo hi =>
    have ⟨hs, ht⟩ := List.cons_subset.mp ht
    rw [relax_cons] at hr
    split at hr
    case isTrue hlt =>
      split at hr
      case h_1 => cases hr
      case h_2 => exact hi (h.lighten hs (Int.not_le.mpr hlt)) ht hr
    case isFalse => exact hi h ht hr

theorem Attained.settle (h : Attained steps labels) (hr : Flow.settle steps rounds labels = .ok labels') :
    Attained steps labels' := by
  induction rounds generalizing labels
  case zero =>
    simp only [Flow.settle, Except.ok.injEq] at hr
    exact hr ▸ h
  case succ rounds hi =>
    simp only [Flow.settle] at hr
    split at hr
    case h_1 => cases hr
    case h_2 ho => exact hi (h.relax (List.Subset.refl _) ho) hr
    case h_3 ho =>
      cases hr
      exact h.relax (List.Subset.refl _) ho

end Distances

end LayeredDiagram.Flow
