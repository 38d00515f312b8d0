import LayeredDiagram.Proofs.CellPaths
import Std.Data.HashMap.Lemmas
import Std.Data.HashSet.Lemmas
/-!
What a path joins. A run from one bend to the next is walked cell by cell, and each of its cells is joined to those of
its neighbours that are on the run as well. The directions that a path joins at a cell are those of all its runs, and it
joins none exactly at the cells that it does not pass.
-/

namespace LayeredDiagram

namespace Directions

-- The headings with some property.
def ofPred (P : Heading → Prop) [DecidablePred P] : Directions where
  up := decide (P .up)
  down := decide (P .down)
  left := decide (P .left)
  right := decide (P .right)

variable {P : Heading → Prop} [DecidablePred P] {d : Directions} {h : Heading}

@[simp]
theorem has_ofPred : (ofPred P).has h = decide (P h) := by
  cases h <;> rfl

@[simp]
theorem has_none : Directions.none.has h = false := by
  cases h <;> rfl

theorem eq_none_iff : d = .none ↔ ∀ h, d.has h = false := by
  constructor
  case mp =>
    rintro rfl h
    exact has_none
  case mpr => exact fun hd => ext_has fun h => by simp [hd h]

@[simp]
theorem none_union : Directions.none.union d = d :=
  rfl

@[simp]
theorem union_none : d.union .none = d :=
  ext_has fun h => by simp [has_union]

theorem union_comm (d e : Directions) : d.union e = e.union d :=
  ext_has fun h => by simp [has_union, Bool.or_comm]

end Directions

namespace Cell

variable {a b p q : Cell} {h d : Heading} {n : Nat} {ps : List Cell}

-- The cell some steps away.
def after (h : Heading) (p : Cell) (n : Nat) : Cell :=
  ⟨p.x + n * h.dx, p.y + n * h.dy⟩

@[simp]
theorem after_zero : p.after h 0 = p := by
  simp [after]

@[simp]
theorem after_step : (p.step h).after h n = p.after h (n + 1) := by
  simp only [after, step]
  push_cast
  congr 1 <;> ring

theorem step_after : (p.after h n).step h = p.after h (n + 1) := by
  simp only [after, step]
  push_cast
  congr 1 <;> ring

theorem step_ne : p.step h ≠ p := by
  cases p
  cases h <;> simp [step, Heading.dx, Heading.dy]

theorem after_ne (hn : n ≠ 0) : p ≠ p.after h n := by
  intro heq
  have hx := congrArg Point.x heq
  have hy := congrArg Point.y heq
  cases h <;> simp [after, Heading.dx, Heading.dy] at hx hy <;> omega

-- Walking from a cell in one direction until the end is reached.
inductive Walk (h : Heading) (b : Cell) : Cell → List Cell → Prop where
  | stop : Walk h b b [b]
  | step {p : Cell} {ps : List Cell} : p ≠ b → Walk h b (p.step h) ps → Walk h b p (p :: ps)

instance : Decidable (Between a b p) :=
  decidable_of_iff (min a.x b.x ≤ p.x ∧ p.x ≤ max a.x b.x ∧ min a.y b.y ≤ p.y ∧ p.y ≤ max a.y b.y)
    ⟨fun ⟨hl, hr, ht, hb⟩ => ⟨hl, hr, ht, hb⟩, fun ⟨hl, hr, ht, hb⟩ => ⟨hl, hr, ht, hb⟩⟩

-- Two different cells in one row or column are some steps apart.
theorem Straight.exists_heading (hs : a.Straight b) (hab : a ≠ b) :
    ∃ h n, a.heading? b = some h ∧ a.distance b = n + 1 ∧ b = a.after h (n + 1) := by
  obtain ⟨ax, ay⟩ := a
  obtain ⟨bx, by'⟩ := b
  unfold Straight at hs
  simp only [ne_eq, Point.mk.injEq] at hab hs
  simp only [heading?, distance, after, Point.mk.injEq]
  rcases lt_trichotomy ax bx with hx | rfl | hx
  · exact ⟨.right, (bx - ax).natAbs - 1, by simp [hx], by simp [hx.ne]; omega, by simp [Heading.dx, Heading.dy]; omega⟩
  · rcases lt_trichotomy ay by' with hy | rfl | hy
    · exact ⟨.down, (by' - ay).natAbs - 1, by simp [hy], by simp; omega, by simp [Heading.dx, Heading.dy]; omega⟩
    · simp at hab
    · exact ⟨.up, (by' - ay).natAbs - 1, by simp [hy, hy.not_gt], by simp; omega,
        by simp [Heading.dx, Heading.dy]; omega⟩
  · exact ⟨.left, (bx - ax).natAbs - 1, by simp [hx, hx.not_gt], by simp [hx.ne']; omega,
      by simp [Heading.dx, Heading.dy]; omega⟩

-- The cells between two others are those passed on the way.
theorem between_after_iff : a.Between (a.after h n) p ↔ ∃ k ≤ n, p = a.after h k := by
  constructor
  case mp =>
    rintro ⟨hl, hr, ht, hb⟩
    refine ⟨((p.x - a.x) * h.dx + (p.y - a.y) * h.dy).toNat, ?_, ?_⟩
    all_goals
      obtain ⟨px, py⟩ := p
      cases h <;> simp [after, Heading.dx, Heading.dy] at hl hr ht hb ⊢ <;> omega
  case mpr =>
    rintro ⟨k, hk, rfl⟩
    constructor <;> cases h <;> simp [after, Heading.dx, Heading.dy] <;> omega

-- From a cell on the way, the only steps that stay on it lead to the cells before and behind.
theorem between_step_after_iff {k : Nat} (hk : k ≤ n) :
    a.Between (a.after h n) ((a.after h k).step d) ↔ (d = h ∧ k < n) ∨ (d = h.opposite ∧ 0 < k) := by
  rw [between_after_iff]
  constructor
  case mp =>
    rintro ⟨l, hl, heq⟩
    obtain ⟨hx, hy⟩ := Point.mk.inj heq
    cases h <;> cases d <;> simp [after, Heading.dx, Heading.dy, Heading.opposite] at hx hy ⊢ <;> omega
  case mpr =>
    rintro (⟨rfl, hlt⟩ | ⟨rfl, hpos⟩)
    · exact ⟨k + 1, hlt, by simp only [after, step]; push_cast; congr 1 <;> ring⟩
    · refine ⟨k - 1, by omega, ?_⟩
      cases h <;> simp [after, step, Heading.dx, Heading.dy, Heading.opposite] <;> omega

theorem eq_of_between_self (h : a.Between a p) : p = a := by
  have ⟨hl, hr, ht, hb⟩ := h
  cases p
  cases a
  simp at hl hr ht hb ⊢
  omega

theorem Straight.exists_between_step (hs : a.Straight b) (hab : a ≠ b) (hq : a.Between b q) :
    ∃ d, a.Between b (q.step d) := by
  have ⟨h, n, _, _, hb⟩ := hs.exists_heading hab
  subst hb
  have ⟨k, hk, heq⟩ := between_after_iff.mp hq
  subst heq
  cases k
  case zero => exact ⟨h, (between_step_after_iff hk).mpr (.inl ⟨rfl, n.succ_pos⟩)⟩
  case succ k => exact ⟨h.opposite, (between_step_after_iff hk).mpr (.inr ⟨rfl, k.succ_pos⟩)⟩

end Cell

namespace Join

open Cell

variable {a b p q : Cell} {h d : Heading} {n : Nat} {j : Join} {joins : List Join} {cells : List Cell}

theorem walk_follow : Walk h (p.after h n) p ((follow h p n).map (·.cell)) := by
  induction n generalizing p
  case zero =>
    rw [after_zero]
    exact .stop
  case succ n hi =>
    have hrest : Walk h (p.after h (n + 1)) (p.step h) ((follow h (p.step h) n).map (·.cell)) := by
      rw [← after_step]
      exact hi
    exact .step (after_ne n.succ_ne_zero) hrest

-- The loop over the cells of a run ends.
theorem walk_run (hs : a.Straight b) (hab : a ≠ b) :
    ∃ h, a.heading? b = some h ∧ Walk h b a ((run a b).map (·.cell)) := by
  have ⟨h, n, hh, hd, hb⟩ := hs.exists_heading hab
  refine ⟨h, hh, ?_⟩
  have hrest : Walk h b (a.step h) ((follow h (a.step h) n).map (·.cell)) := by
    rw [hb, ← after_step]
    exact walk_follow
  rw [run, hh, hd]
  exact .step hab hrest

-- What a run joins at the cell some steps from its start: the cells before and behind, as far as they are on the run.
def onRun (h : Heading) (a : Cell) (n k : Nat) : Join :=
  ⟨a.after h k, .ofPred fun d => (d = h ∧ k < n) ∨ (d = h.opposite ∧ 0 < k)⟩

-- By induction on the steps to the end.
theorem follow_after {k : Nat} (hk : 0 < k) :
    follow h (a.after h k) n = (List.range' k (n + 1)).map (onRun h a (k + n)) := by
  induction n generalizing k
  case zero =>
    have hlast : Directions.ofHeading h.opposite = (onRun h a k k).directions :=
      Directions.ext_has fun d => by simp [onRun, Directions.has_ofHeading, hk, eq_comm]
    simp [follow, hlast, onRun]
  case succ n hi =>
    have hjoin : Directions.ofList [h.opposite, h] = (onRun h a (k + (n + 1)) k).directions := by
      apply Directions.ext_has
      intro d
      have hlist : (Directions.ofList [h.opposite, h]).has d = decide (d = h ∨ d = h.opposite) := by
        cases h <;> cases d <;> rfl
      simp [hlist, onRun, hk]
    have hsum : k + 1 + n = k + (n + 1) := by omega
    have hrange : List.range' k (n + 1 + 1) = k :: List.range' (k + 1) (n + 1) := List.range'_succ
    rw [follow, step_after, hi k.succ_pos, hsum, hjoin, hrange, List.map_cons]
    rfl

theorem run_eq (hab : a.heading? b = some h) (hn : a.distance b = n + 1) :
    run a b = (List.range (n + 2)).map (onRun h a (n + 1)) := by
  have hfirst : Directions.ofHeading h = (onRun h a (n + 1) 0).directions :=
    Directions.ext_has fun d => by simp [onRun, Directions.has_ofHeading, eq_comm]
  have hsecond : a.step h = a.after h 1 := by simp [← step_after]
  rw [run, hab, hn, List.range_eq_range', List.range'_succ, List.map_cons]
  simp only [hfirst, hsecond]
  rw [follow_after Nat.one_pos, Nat.add_comm 1 n]
  simp only [onRun, after_zero, Nat.zero_add]

theorem run_self (a : Cell) : run a a = [] := by
  simp [run, heading?]

-- Every cell of a run is left or entered.
theorem exists_has_of_mem_run (hs : a.Straight b) (hj : j ∈ run a b) : ∃ d, j.directions.has d := by
  by_cases hab : a = b
  case pos => simp [hab, run_self] at hj
  case neg =>
    have ⟨h, n, hh, hd, _⟩ := hs.exists_heading hab
    have ⟨k, _, hk⟩ := List.mem_map.mp (run_eq hh hd ▸ hj)
    subst hk
    cases k
    case zero => exact ⟨h, by simp [onRun]⟩
    case succ k => exact ⟨h.opposite, by simp [onRun]⟩

-- A run joins a cell to another one in some direction if both are on it.
theorem exists_mem_run_iff (hs : a.Straight b) :
    (∃ j ∈ run a b, j.cell = q ∧ j.directions.has d) ↔ a.Between b q ∧ a.Between b (q.step d) := by
  by_cases hab : a = b
  case pos =>
    subst hab
    have hstep : ¬(a.Between a q ∧ a.Between a (q.step d)) := by
      rintro ⟨hq, hstep⟩
      rw [eq_of_between_self hq] at hstep
      exact step_ne (eq_of_between_self hstep)
    simp [run_self, hstep]
  case neg =>
    have ⟨h, n, hh, hd, hb⟩ := hs.exists_heading hab
    rw [run_eq hh hd]
    subst hb
    constructor
    case mp =>
      rintro ⟨j, hj, rfl, hdir⟩
      have ⟨k, hk, heq⟩ := List.mem_map.mp hj
      subst heq
      have hk : k ≤ n + 1 := Nat.le_of_lt_succ (List.mem_range.mp hk)
      rw [onRun, Directions.has_ofPred, decide_eq_true_eq] at hdir
      exact ⟨between_after_iff.mpr ⟨k, hk, rfl⟩, (between_step_after_iff hk).mpr hdir⟩
    case mpr =>
      rintro ⟨hq, hstep⟩
      have ⟨k, hk, heq⟩ := between_after_iff.mp hq
      subst heq
      rw [between_step_after_iff hk] at hstep
      exact ⟨_, List.mem_map_of_mem (List.mem_range.mpr (by omega)), rfl, by simpa [onRun] using hstep⟩

-- By induction on the joins.
theorem has_getD_met : ((met joins).getD q .none).has d = true ↔ ∃ j ∈ joins, j.cell = q ∧ j.directions.has d := by
  suffices hfold : ∀ found : Std.HashMap Cell Directions,
      ((joins.foldl (fun found j => found.insert j.cell ((found.getD j.cell .none).union j.directions)) found).getD q
        .none).has d = true ↔ (found.getD q .none).has d = true ∨ ∃ j ∈ joins, j.cell = q ∧ j.directions.has d by
    simpa [met] using hfold ∅
  induction joins
  case nil => simp
  case cons j joins hi =>
    intro found
    rw [List.foldl_cons, hi, Std.HashMap.getD_insert]
    by_cases hj : j.cell = q
    case pos => simp [hj, Directions.has_union, or_assoc]
    case neg => simp [hj]

theorem mem_distinct {seen : Std.HashSet Cell} : p ∈ distinct seen cells ↔ p ∈ cells ∧ p ∉ seen := by
  induction cells generalizing seen
  case nil => simp [distinct]
  case cons a cells hi =>
    rw [distinct]
    by_cases ha : a ∈ seen
    case pos =>
      rw [if_pos (by simpa using ha), hi, List.mem_cons]
      constructor
      · exact fun ⟨hp, hn⟩ => ⟨.inr hp, hn⟩
      · exact fun ⟨hp, hn⟩ => ⟨hp.resolve_left (fun heq => hn (heq ▸ ha)), hn⟩
    case neg =>
      rw [if_neg (by simpa using ha), List.mem_cons, hi, List.mem_cons, Std.HashSet.mem_insert]
      by_cases hp : p = a
      case pos => simp [hp, ha]
      case neg => simp [hp, Ne.symm hp]

theorem nodup_distinct (seen : Std.HashSet Cell) (cells : List Cell) : (distinct seen cells).Nodup := by
  induction cells generalizing seen
  case nil => exact List.nodup_nil
  case cons a cells hi =>
    rw [distinct]
    split
    case isTrue => exact hi seen
    case isFalse => exact List.nodup_cons.mpr ⟨by simp [mem_distinct], hi _⟩

-- The runs of a path, each from one of its cells to the next.
def runs (cells : List Cell) : List (Cell × Cell) :=
  cells.zip cells.tail

-- The headings in which a path leaves a cell or comes to it: the next cell there is on a run of the path as well.
def joinsAt (cells : List Cell) (q : Cell) : Directions :=
  .ofPred fun h => ∃ r ∈ runs cells, r.1.Between r.2 q ∧ r.1.Between r.2 (q.step h)

-- A cell that a path passes.
def OnPath (cells : List Cell) (q : Cell) : Prop :=
  q ∈ cells ∨ ∃ r ∈ runs cells, r.1.Between r.2 q

instance : Decidable (OnPath cells q) :=
  inferInstanceAs (Decidable (_ ∨ _))

theorem onPath_of_joinsAt (h : joinsAt cells q ≠ .none) : OnPath cells q := by
  rw [ne_eq, Directions.eq_none_iff, not_forall] at h
  have ⟨d, hd⟩ := h
  have hd : ∃ r ∈ runs cells, r.1.Between r.2 q ∧ r.1.Between r.2 (q.step d) := by simpa [joinsAt] using hd
  have ⟨r, hr, hbetween, _⟩ := hd
  exact .inr ⟨r, hr, hbetween⟩

theorem straight_of_mem_runs (hs : cells.IsChain Straight) {r : Cell × Cell} (hr : r ∈ runs cells) :
    r.1.Straight r.2 := by
  induction cells
  case nil => simp [runs] at hr
  case cons a cells hi =>
    cases cells
    case nil => simp [runs] at hr
    case cons b cells =>
      have ⟨hab, hs⟩ := List.isChain_cons_cons.mp hs
      cases List.mem_cons.mp hr
      case inl heq => exact heq ▸ hab
      case inr hr => exact hi hs hr

theorem visits_eq : visits cells = (runs cells).flatMap fun r => run r.1 r.2 := by
  induction cells
  case nil => rfl
  case cons a cells hi =>
    cases cells
    case nil => rfl
    case cons b cells =>
      rw [visits, hi]
      rfl

-- A cell given repeatedly makes no difference.
theorem visits_bends : visits (Canvas.bends cells) = visits cells := by
  induction cells
  case nil => rfl
  case cons a cells hi =>
    cases cells
    case nil => rfl
    case cons b cells =>
      rw [Canvas.bends, visits]
      split
      case isTrue hab =>
        rw [hi, hab, run_self, List.nil_append]
      case isFalse =>
        obtain ⟨rest, hrest⟩ := Canvas.exists_bends_cons b cells
        rw [hrest] at hi ⊢
        rw [visits, hi]

theorem ne_of_mem_runs_bends {r : Cell × Cell} (hr : r ∈ runs (Canvas.bends cells)) : r.1 ≠ r.2 := by
  induction cells
  case nil => simp [Canvas.bends, runs] at hr
  case cons a cells hi =>
    cases cells
    case nil => simp [Canvas.bends, runs] at hr
    case cons b cells =>
      rw [Canvas.bends] at hr
      split at hr
      case isTrue => exact hi hr
      case isFalse hab =>
        obtain ⟨rest, hrest⟩ := Canvas.exists_bends_cons b cells
        rw [hrest] at hi hr
        cases List.mem_cons.mp hr
        case inl heq => exact heq ▸ hab
        case inr hr => exact hi hr

-- A cell of a path is all of it, or a run starts or ends there.
theorem forall_eq_or_exists_run (hq : q ∈ cells) :
    (∀ p ∈ cells, p = q) ∨ ∃ r ∈ runs cells, r.1 ≠ r.2 ∧ (q = r.1 ∨ q = r.2) := by
  induction cells
  case nil => simp at hq
  case cons a cells hi =>
    cases cells
    case nil => exact .inl fun p hp => (List.mem_singleton.mp hp).trans (List.mem_singleton.mp hq).symm
    case cons b cells =>
      have hfirst (hab : a ≠ b) (hend : q = a ∨ q = b) :
          ∃ r ∈ runs (a :: b :: cells), r.1 ≠ r.2 ∧ (q = r.1 ∨ q = r.2) :=
        ⟨(a, b), List.mem_cons_self, hab, hend⟩
      have hrest (hq : q ∈ b :: cells) : (∀ p ∈ a :: b :: cells, p = q) ∨
          ∃ r ∈ runs (a :: b :: cells), r.1 ≠ r.2 ∧ (q = r.1 ∨ q = r.2) := by
        cases hi hq
        case inr hends =>
          have ⟨r, hr, hends⟩ := hends
          exact .inr ⟨r, List.mem_cons_of_mem _ hr, hends⟩
        case inl hall =>
          have hb := hall b List.mem_cons_self
          by_cases hab : a = b
          case pos => exact .inl (List.forall_mem_cons.mpr ⟨hab.trans hb, hall⟩)
          case neg => exact .inr (hfirst hab (.inr hb.symm))
      cases List.mem_cons.mp hq
      case inr hq => exact hrest hq
      case inl heq =>
        by_cases hab : a = b
        case pos => exact hrest (by simp [heq, hab])
        case neg => exact .inr (hfirst hab (.inl heq))

section Straight

variable (hs : cells.IsChain Straight)
include hs

theorem exists_mem_visits_iff :
    (∃ j ∈ visits cells, j.cell = q ∧ j.directions.has d) ↔ (joinsAt cells q).has d = true := by
  simp only [visits_eq, List.mem_flatMap, joinsAt, Directions.has_ofPred, decide_eq_true_eq]
  constructor
  case mp =>
    rintro ⟨j, ⟨r, hr, hj⟩, hjoin⟩
    exact ⟨r, hr, (exists_mem_run_iff (straight_of_mem_runs hs hr)).mp ⟨j, hj, hjoin⟩⟩
  case mpr =>
    rintro ⟨r, hr, hbetween⟩
    have ⟨j, hj, hjoin⟩ := (exists_mem_run_iff (straight_of_mem_runs hs hr)).mpr hbetween
    exact ⟨j, ⟨r, hr, hj⟩, hjoin⟩

theorem getD_met_visits : (met (visits cells)).getD q .none = joinsAt cells q :=
  Directions.ext_has fun _ => Bool.eq_iff_iff.mpr (has_getD_met.trans (exists_mem_visits_iff hs))

theorem mem_cells_visits_iff : q ∈ (visits cells).map (·.cell) ↔ joinsAt cells q ≠ .none := by
  simp only [ne_eq, Directions.eq_none_iff, not_forall, Bool.not_eq_false, ← exists_mem_visits_iff hs]
  constructor
  case mp =>
    intro hq
    have ⟨j, hj, hjq⟩ := List.mem_map.mp hq
    have ⟨r, hr, hrun⟩ := List.mem_flatMap.mp (visits_eq ▸ hj)
    have ⟨d, hd⟩ := exists_has_of_mem_run (straight_of_mem_runs hs hr) hrun
    exact ⟨d, j, hj, hjq, hd⟩
  case mpr =>
    rintro ⟨d, j, hj, hjq, _⟩
    exact List.mem_map.mpr ⟨j, hj, hjq⟩

-- A cell is left or entered unless it is all of the path.
theorem forall_eq_of_joinsAt (hq : OnPath cells q) (hj : joinsAt cells q = .none) : ∀ p ∈ cells, p = q := by
  have hrun (r : Cell × Cell) (hr : r ∈ runs cells) (hbetween : r.1.Between r.2 q) : r.1 = r.2 := by
    by_contra hne
    have ⟨d, hd⟩ := (straight_of_mem_runs hs hr).exists_between_step hne hbetween
    have hhas : (joinsAt cells q).has d := by
      rw [joinsAt, Directions.has_ofPred, decide_eq_true_eq]
      exact ⟨r, hr, hbetween, hd⟩
    simp [hj] at hhas
  have hmem : q ∈ cells := by
    cases hq
    case inl hmem => exact hmem
    case inr hpass =>
      have ⟨r, hr, hbetween⟩ := hpass
      have heq : q = r.1 := eq_of_between_self (hrun r hr hbetween ▸ hbetween)
      exact heq ▸ (List.of_mem_zip hr).left
  cases forall_eq_or_exists_run hmem
  case inl hall => exact hall
  case inr hends =>
    have ⟨r, hr, hne, hend⟩ := hends
    refine absurd (hrun r hr ?_) hne
    cases hend
    case inl heq => exact heq ▸ between_left ..
    case inr heq => exact heq ▸ between_right ..

end Straight

end Join

end LayeredDiagram
