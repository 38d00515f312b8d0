import LayeredDiagram.Proofs.Balancing
import Mathlib.Algebra.BigOperators.Group.List.Basic
/-!
Weighted medians. The places whose weighted distance from some values is least are those between their medians, and on
the way to the middle of the medians the distance never grows. Weights have few decimals, so that sums of them that are
as good as equal are equal.
-/

namespace LayeredDiagram

variable {d : Rat}

namespace HasDecimals

theorem le_of_pos (hd : HasDecimals 8 d) (h : 0 < d) : 1 / 100000000 ≤ d := by
  obtain ⟨n, hn⟩ := hd
  have hpos : (0 : Rat) < n := by linarith
  have : 0 < n := by exact_mod_cast hpos
  have : (1 : Rat) ≤ n := by exact_mod_cast this
  linarith

theorem nonneg_of_lt (hd : HasDecimals 8 d) (h : -(1 / 100000000) < d) : 0 ≤ d := by
  by_contra hneg
  have := ((natCast 8 0).sub hd).le_of_pos (by push_cast; linarith)
  push_cast at this
  linarith

end HasDecimals

namespace Abscissae

variable {values l r : List (Rat × Rat)} {p q : Rat × Rat} {a b : Rat}

section Distances

def weightOf (values : List (Rat × Rat)) : Rat :=
  (values.map (·.2)).sum

-- The distances of a place from all values, weighted.
def distance (values : List (Rat × Rat)) (a : Rat) : Rat :=
  (values.map fun p => p.2 * |a - p.1|).sum

theorem weightOf_append : weightOf (l ++ r) = weightOf l + weightOf r := by
  simp [weightOf]

theorem weightOf_nonneg (h : ∀ p ∈ values, 0 < p.2) : 0 ≤ weightOf values := by
  refine List.sum_nonneg fun w hw => ?_
  obtain ⟨p, hp, rfl⟩ := List.mem_map.mp hw
  exact (h p hp).le

theorem weightOf_pos (hn : values ≠ []) (h : ∀ p ∈ values, 0 < p.2) : 0 < weightOf values := by
  obtain ⟨p, rest, rfl⟩ := List.exists_cons_of_ne_nil hn
  obtain ⟨hp, h⟩ := List.forall_mem_cons.mp h
  have : weightOf (p :: rest) = p.2 + weightOf rest := by simp [weightOf]
  linarith [weightOf_nonneg h]

theorem hasDecimals_weightOf (h : ∀ p ∈ values, HasDecimals 8 p.2) : HasDecimals 8 (weightOf values) := by
  induction values
  case nil => exact ⟨0, by simp [weightOf]⟩
  case cons p values hi =>
    obtain ⟨hp, h⟩ := List.forall_mem_cons.mp h
    have : weightOf (p :: values) = p.2 + weightOf values := by simp [weightOf]
    exact this ▸ hp.add (hi h)

-- Differences of sums of weights have few decimals, so that a tolerance makes no difference.
theorem weightOf_le_of_lt (hl : ∀ p ∈ l, HasDecimals 8 p.2) (hr : ∀ p ∈ r, HasDecimals 8 p.2)
    (h : weightOf r < weightOf l + 1 / 100000000) : weightOf r ≤ weightOf l := by
  have := ((hasDecimals_weightOf hl).sub (hasDecimals_weightOf hr)).nonneg_of_lt (by linarith)
  linarith

-- Away from some of the values the distance grows by what they weigh more than the others.
theorem add_le_distance (hperm : values.Perm (l ++ r)) (hpos : ∀ p ∈ values, 0 < p.2)
    (hl : ∀ p ∈ l, |b - p.1| = |b - a| + |a - p.1|) :
    distance values a + |b - a| * (weightOf l - weightOf r) ≤ distance values b := by
  have hsplit (c : Rat) : distance values c = distance l c + distance r c := by
    rw [distance, (hperm.map _).sum_eq, List.map_append, List.sum_append]
    rfl
  have hleft : distance l b = |b - a| * weightOf l + distance l a := by
    rw [distance, weightOf, ← List.sum_map_mul_left, distance, ← List.sum_map_add]
    refine congrArg List.sum (List.map_congr_left fun p hp => ?_)
    rw [hl p hp]
    ring
  have hright : distance r a ≤ |b - a| * weightOf r + distance r b := by
    rw [distance, weightOf, ← List.sum_map_mul_left, distance, ← List.sum_map_add]
    refine List.sum_le_sum fun p hp => ?_
    have hp : 0 < p.2 := hpos p (hperm.mem_iff.mpr (List.mem_append_right l hp))
    have hle := abs_sub_le a b p.1
    rw [abs_sub_comm a b] at hle
    have := mul_le_mul_of_nonneg_left hle hp.le
    linarith
  rw [hsplit, hsplit, mul_sub]
  linarith

theorem distance_le (hperm : values.Perm (l ++ r)) (hpos : ∀ p ∈ values, 0 < p.2)
    (hl : ∀ p ∈ l, |b - p.1| = |b - a| + |a - p.1|) (hw : weightOf r ≤ weightOf l) :
    distance values a ≤ distance values b := by
  have := mul_nonneg (abs_nonneg (b - a)) (sub_nonneg.mpr hw)
  linarith [add_le_distance hperm hpos hl]

theorem distance_lt (hperm : values.Perm (l ++ r)) (hpos : ∀ p ∈ values, 0 < p.2)
    (hl : ∀ p ∈ l, |b - p.1| = |b - a| + |a - p.1|) (hw : weightOf r < weightOf l) (hne : b ≠ a) :
    distance values a < distance values b := by
  have := mul_pos (abs_pos.mpr (sub_ne_zero.mpr hne)) (sub_pos.mpr hw)
  linarith [add_le_distance hperm hpos hl]

end Distances

section Running

variable {Q : Rat → Prop} [DecidablePred Q]

-- The first pair up to which the weights add up to enough, if all of them do.
theorem exists_find?_running (sum : Rat) (hl : l ≠ []) (h : Q (sum + weightOf l)) : ∃ p l₁ w l₂,
    (running sum l).find? (fun s => Q s.2) = some p ∧ l = l₁ ++ (p.1, w) :: l₂ ∧
      Q (sum + weightOf (l₁ ++ [(p.1, w)])) ∧ (l₁ = [] ∨ ¬Q (sum + weightOf l₁)) := by
  induction l generalizing sum
  case nil => exact absurd rfl hl
  case cons q l hi =>
    obtain ⟨v, w⟩ := q
    by_cases hq : Q (sum + w)
    case pos => exact ⟨(v, sum + w), [], w, l, by simp [running, hq], rfl, by simpa [weightOf] using hq, .inl rfl⟩
    case neg =>
      have hnil : l ≠ [] := by
        rintro rfl
        exact hq (by simpa [weightOf] using h)
      obtain ⟨p, l₁, w', l₂, hp, rfl, hfound, hbefore⟩ :=
        hi (sum + w) hnil (by simpa [weightOf, add_assoc] using h)
      refine ⟨p, (v, w) :: l₁, w', l₂, by simpa [running, hq] using hp, rfl,
        by simpa [weightOf, add_assoc] using hfound, .inr ?_⟩
      rcases hbefore with rfl | hbefore
      · simpa [weightOf] using hq
      · simpa [weightOf, add_assoc] using hbefore

end Running

section Medians

theorem before_iff : before p q = true ↔ p.1 < q.1 ∨ p.1 = q.1 ∧ p.2 ≤ q.2 := by
  simp only [before, Bool.or_eq_true, decide_eq_true_eq, Bool.and_eq_true, Bool.not_eq_true', decide_eq_false_iff_not]
  grind

theorem before_trans (p q s : Rat × Rat) (h : before p q = true) (h' : before q s = true) : before p s = true := by
  rw [before_iff] at *
  grind

theorem before_total (p q : Rat × Rat) : (before p q || before q p) = true := by
  rw [Bool.or_eq_true, before_iff, before_iff]
  grind

theorem pairwise_mergeSort_before (values : List (Rat × Rat)) : (values.mergeSort before).Pairwise fun p q => p.1 ≤ q.1 := by
  refine (List.pairwise_mergeSort before_trans before_total values).imp fun h => ?_
  rcases before_iff.mp h with h | h
  · exact h.le
  · exact h.left.le

-- The ends of two beginnings of a sorted list, unless the second one is within what is before the end of the first.
theorem fst_le_of_not_prefix (hs : values.Pairwise fun p q => p.1 ≤ q.1) (hp : l ++ [p] <+: values)
    (hq : r ++ [q] <+: values) (hn : ¬r ++ [q] <+: l) : p.1 ≤ q.1 := by
  have hsame (h : l ++ [p] = r ++ [q]) : p.1 = q.1 := by
    have := List.append_inj_right' h rfl
    simp_all
  rcases List.prefix_or_prefix_of_prefix hp hq with h | h
  · rcases List.prefix_concat_iff.mp h with h | h
    · exact (hsame h).le
    · have hmem : p ∈ r := h.subset (by simp)
      have := hs.sublist hq.sublist
      exact (List.pairwise_append.mp this).right.right p hmem q List.mem_cons_self
  · rcases List.prefix_concat_iff.mp h with h | h
    · exact (hsame h.symm).le
    · exact absurd h hn

-- The values up to the lower bound weigh no less than the others, and so do those from the upper bound on. The values
-- from the lower bound on weigh more than the others, and so do those up to the upper bound.
structure Medians (values : List (Rat × Rat)) (lower upper : Rat) : Prop where
  le : lower ≤ upper
  left : ∃ l r, values.Perm (l ++ r) ∧ (∀ p ∈ l, p.1 ≤ lower) ∧ weightOf r ≤ weightOf l
  right : ∃ l r, values.Perm (l ++ r) ∧ (∀ p ∈ r, upper ≤ p.1) ∧ weightOf l ≤ weightOf r
  fromLower : ∃ l r, values.Perm (l ++ r) ∧ (∀ p ∈ r, lower ≤ p.1) ∧ weightOf l < weightOf r
  toUpper : ∃ l r, values.Perm (l ++ r) ∧ (∀ p ∈ l, p.1 ≤ upper) ∧ weightOf r < weightOf l

namespace Medians

variable {lower upper c target m : Rat}

-- On the way to a place between the bounds.
theorem distance_le (h : Medians values lower upper) (hpos : ∀ p ∈ values, 0 < p.2)
    (ht : target ∈ Set.Icc lower upper) (hm : m ∈ Set.uIcc c target) : distance values m ≤ distance values c := by
  rcases Set.mem_uIcc.mp hm with ⟨hc, hm⟩ | ⟨hm, hc⟩
  · obtain ⟨l, r, hperm, hr, hw⟩ := h.right
    refine Abscissae.distance_le (hperm.trans List.perm_append_comm) hpos (fun p hp => ?_) hw
    have := (hm.trans ht.right).trans (hr p hp)
    rw [abs_of_nonpos (by linarith), abs_of_nonpos (by linarith), abs_of_nonpos (by linarith)]
    ring
  · obtain ⟨l, r, hperm, hl, hw⟩ := h.left
    refine Abscissae.distance_le hperm hpos (fun p hp => ?_) hw
    have := (hl p hp).trans (ht.left.trans hm)
    rw [abs_of_nonneg (by linarith), abs_of_nonneg (by linarith), abs_of_nonneg (by linarith)]
    ring

theorem distance_lower_lt (h : Medians values lower upper) (hpos : ∀ p ∈ values, 0 < p.2) (hm : m < lower) :
    distance values lower < distance values m := by
  obtain ⟨l, r, hperm, hr, hw⟩ := h.fromLower
  refine distance_lt (hperm.trans List.perm_append_comm) hpos (fun p hp => ?_) hw hm.ne
  have := hr p hp
  rw [abs_of_nonpos (by linarith), abs_of_nonpos (by linarith), abs_of_nonpos (by linarith)]
  ring

theorem distance_upper_lt (h : Medians values lower upper) (hpos : ∀ p ∈ values, 0 < p.2) (hm : upper < m) :
    distance values upper < distance values m := by
  obtain ⟨l, r, hperm, hl, hw⟩ := h.toUpper
  refine distance_lt hperm hpos (fun p hp => ?_) hw hm.ne'
  have := hl p hp
  rw [abs_of_nonneg (by linarith), abs_of_nonneg (by linarith), abs_of_nonneg (by linarith)]
  ring

-- No place is nearer to the values than those between the bounds, and all others are further away.
theorem minimizers_eq (h : Medians values lower upper) (hpos : ∀ p ∈ values, 0 < p.2) :
    {m | ∀ c, distance values m ≤ distance values c} = Set.Icc lower upper := by
  ext m
  constructor
  case mp =>
    intro hm
    by_contra hout
    rcases lt_or_ge m lower with hlower | hlower
    · exact (h.distance_lower_lt hpos hlower).not_ge (hm lower)
    · have hupper : upper < m := not_le.mp fun hle => hout ⟨hlower, hle⟩
      exact (h.distance_upper_lt hpos hupper).not_ge (hm upper)
  case mpr => exact fun hm c => h.distance_le hpos hm Set.right_mem_uIcc

theorem of_perm {sorted : List (Rat × Rat)} (h : Medians sorted lower upper) (hperm : values.Perm sorted) :
    Medians values lower upper where
  le := h.le
  left := have ⟨l, r, hlr, h⟩ := h.left; ⟨l, r, hperm.trans hlr, h⟩
  right := have ⟨l, r, hlr, h⟩ := h.right; ⟨l, r, hperm.trans hlr, h⟩
  fromLower := have ⟨l, r, hlr, h⟩ := h.fromLower; ⟨l, r, hperm.trans hlr, h⟩
  toUpper := have ⟨l, r, hlr, h⟩ := h.toUpper; ⟨l, r, hperm.trans hlr, h⟩

end Medians

-- No pair of a sorted list up to one of them has a greater value than it, and none from there on a smaller one.
theorem sides_of_pairwise (hs : (l ++ p :: r).Pairwise fun p q => p.1 ≤ q.1) :
    (∀ s ∈ l ++ [p], s.1 ≤ p.1) ∧ ∀ s ∈ p :: r, p.1 ≤ s.1 := by
  rw [List.pairwise_append, List.pairwise_cons] at hs
  obtain ⟨-, ⟨hr, -⟩, hl⟩ := hs
  constructor
  · intro s hs
    rcases List.mem_append.mp hs with hs | hs
    · exact hl s hs p List.mem_cons_self
    · exact (congrArg Prod.fst (List.mem_singleton.mp hs)).le
  · exact List.forall_mem_cons.mpr ⟨le_rfl, hr⟩

-- The pairs of a sorted list up to which the weights add up to half of all weights first, and to more than half of them.
theorem medians_of_sorted {l' r' : List (Rat × Rat)} (hs : values.Pairwise fun p q => p.1 ≤ q.1)
    (hpos : ∀ p ∈ values, 0 < p.2) (hl : values = l ++ p :: r) (hle : weightOf r ≤ weightOf (l ++ [p]))
    (hlt : weightOf l < weightOf (p :: r)) (hl' : values = l' ++ q :: r')
    (hlt' : weightOf r' < weightOf (l' ++ [q])) (hle' : weightOf l' ≤ weightOf (q :: r')) :
    Medians values p.1 q.1 := by
  have hp : values = (l ++ [p]) ++ r := by simp [hl]
  have hq : values = (l' ++ [q]) ++ r' := by simp [hl']
  obtain ⟨hpl, hpr⟩ := sides_of_pairwise (hl ▸ hs)
  obtain ⟨hql, hqr⟩ := sides_of_pairwise (hl' ▸ hs)
  refine ⟨?le, ⟨_, _, .of_eq hp, hpl, hle⟩, ⟨_, _, .of_eq hl', hqr, hle'⟩, ⟨_, _, .of_eq hl, hpr, hlt⟩,
    ⟨_, _, .of_eq hq, hql, hlt'⟩⟩
  refine fst_le_of_not_prefix hs ⟨r, hp.symm⟩ ⟨r', hq.symm⟩ ?_
  -- More than half of the weights are not before less than half of them.
  rintro ⟨rest, hrest⟩
  have hnonneg : 0 ≤ weightOf rest := weightOf_nonneg fun s hs => hpos s (by simp [hl, ← hrest, hs])
  have htotal := congrArg weightOf (hl.symm.trans hq)
  rw [← hrest] at htotal hlt
  simp only [weightOf_append] at htotal hlt hlt'
  linarith

-- The first values up to which the weights add up to half of all weights, and to more than that.
theorem exists_medians (hn : values ≠ []) (hpos : ∀ p ∈ values, 0 < p.2) (hd : ∀ p ∈ values, HasDecimals 8 p.2) :
    ∃ lower upper, Medians values lower upper ∧ medianMidpoint values = (lower + upper) / 2 := by
  have hperm : (values.mergeSort before).Perm values := List.mergeSort_perm values before
  have hsorted := pairwise_mergeSort_before values
  simp only [medianMidpoint]
  generalize values.mergeSort before = sorted at hperm hsorted ⊢
  have hne : sorted ≠ [] := fun h => hn (List.nil_perm.mp (h ▸ hperm))
  have hspos : ∀ p ∈ sorted, 0 < p.2 := fun p hp => hpos p (hperm.subset hp)
  have hsd : ∀ p ∈ sorted, HasDecimals 8 p.2 := fun p hp => hd p (hperm.subset hp)
  have htotal : weightOf sorted = 2 * (Scalar.sum (sorted.map (·.2)) / 2) := by
    rw [Scalar.sum, ← List.sum_eq_foldl, weightOf]
    ring
  generalize Scalar.sum (sorted.map (·.2)) / 2 = half at htotal ⊢
  have hhalf : 1 / 1000000000 < half := by
    have := (hasDecimals_weightOf hsd).le_of_pos (weightOf_pos hne hspos)
    linarith
  obtain ⟨p, l, w, r, hp, hl, hle, hbefore⟩ :=
    exists_find?_running (Q := fun s => half - 1e-9 ≤ s) 0.0 hne (by norm_num; linarith)
  obtain ⟨q, l', w', r', hq, hl', hlt, hbefore'⟩ :=
    exists_find?_running (Q := fun s => half + 1e-9 < s) 0.0 hne (by norm_num; linarith)
  rw [hp, hq]
  refine ⟨p.1, q.1, ?_, rfl⟩
  norm_num at hle hlt hbefore hbefore'
  have hnil : weightOf [] = 0 := rfl
  have heavier {l r : List (Rat × Rat)} (hl : l ⊆ sorted) (hr : r ⊆ sorted)
      (h : weightOf r < weightOf l + 1 / 100000000) : weightOf r ≤ weightOf l :=
    weightOf_le_of_lt (fun p hp => hsd p (hl hp)) (fun p hp => hsd p (hr hp)) h
  have halves {l r : List (Rat × Rat)} (h : sorted = l ++ r) : weightOf l + weightOf r = 2 * half := by
    rw [← weightOf_append, ← h, htotal]
  have hsplit := halves (l := l ++ [(p.1, w)]) (r := r) (by simp [hl])
  have hsplit' := halves (l := l' ++ [(q.1, w')]) (r := r') (by simp [hl'])
  refine (medians_of_sorted (p := (p.1, w)) (q := (q.1, w')) hsorted hspos hl ?_ ?_ hl' ?_ ?_).of_perm hperm.symm
  · exact heavier (by simp [hl]) (by simp [hl]) (by linarith)
  · have := halves hl
    rcases hbefore with rfl | hbefore <;> linarith
  · linarith
  · have := halves hl'
    refine heavier (by simp [hl']) (by simp [hl']) ?_
    rcases hbefore' with rfl | hbefore' <;> linarith

-- The middle of the medians of some values is the middle of all places whose weighted distance from the values is least.
theorem exists_minimizers (hn : values ≠ []) (hw : ∀ p ∈ values, ∃ n : Nat, 0 < n ∧ p.2 = n) :
    ∃ lower upper, lower ≤ upper ∧ {m | ∀ c, distance values m ≤ distance values c} = Set.Icc lower upper ∧
      medianMidpoint values = (lower + upper) / 2 := by
  have hpos : ∀ p ∈ values, 0 < p.2 := fun p hp => by
    obtain ⟨n, hn, hpn⟩ := hw p hp
    exact hpn ▸ Nat.cast_pos.mpr hn
  have hd : ∀ p ∈ values, HasDecimals 8 p.2 := fun p hp => by
    obtain ⟨n, -, hpn⟩ := hw p hp
    exact hpn ▸ .natCast 8 n
  obtain ⟨lower, upper, hmedians, hmiddle⟩ := exists_medians hn hpos hd
  exact ⟨lower, upper, hmedians.le, hmedians.minimizers_eq hpos, hmiddle⟩

-- One of these values weighs as much as the others together.
def evenWeights : List (Rat × Rat) :=
  [(7, 1), (1, 2), (3, 1)]

theorem exists_minimizers_evenWeights : ∃ lower upper, lower ≤ upper ∧
    {m | ∀ c, distance evenWeights m ≤ distance evenWeights c} = Set.Icc lower upper ∧
      medianMidpoint evenWeights = (lower + upper) / 2 :=
  exists_minimizers (List.cons_ne_nil _ _) (by
    simp only [evenWeights, List.forall_mem_cons]
    exact ⟨⟨1, by simp⟩, ⟨2, by simp⟩, ⟨1, by simp⟩, by simp⟩)

example : medianMidpoint evenWeights = 2 := by
  cbv

end Medians

end Abscissae

end LayeredDiagram
