import LayeredDiagram.Proofs.Decimals
import LayeredDiagram.Routing.Route
import Mathlib.Algebra.Order.Field.Basic
import Mathlib.Data.List.Chain
/-!
Polylines over exact arithmetic on their way to routes. Bends are put in, repeated points and points on straight
stretches are dropped, and the ends are cut off at boxes. For every one of these steps, a relation between
neighbouring points gives one between the neighbouring points that the step leaves.
-/

namespace LayeredDiagram

theorem Scalar.magnitude_eq_abs (a : Rat) : Scalar.magnitude a = |a| := by
  unfold magnitude
  split
  case isTrue h => exact (abs_of_neg h).symm
  case isFalse h => exact (abs_of_nonneg (not_lt.mp h)).symm

-- The centre of a box.
def Box.center (b : Box Rat) : Point Rat :=
  ⟨b.x, b.y⟩

@[simp]
theorem Box.center_x (b : Box Rat) : b.center.x = b.x :=
  rfl

@[simp]
theorem Box.center_y (b : Box Rat) : b.center.y = b.y :=
  rfl

namespace Route

variable {a b c k p q z : Point Rat} {l : List (Point Rat)} {u v sign : Rat} {verticalFirst : Bool}
variable {Q : Point Rat → Prop} {R S : Point Rat → Point Rat → Prop} {box : Box Rat}

theorem tolerance_eq : (tolerance : Rat) = 1 / 1000000000 := by
  decide +kernel

theorem tolerance_nonneg : (0 : Rat) ≤ tolerance := by
  rw [tolerance_eq]
  norm_num

theorem near_iff : near u v ↔ |u - v| ≤ tolerance := by
  simp [near, Scalar.magnitude_eq_abs]

theorem apart_iff : apart u v ↔ tolerance < |u - v| := by
  simp [apart, Scalar.magnitude_eq_abs]

theorem same_iff : same a b ↔ |a.x - b.x| ≤ tolerance ∧ |a.y - b.y| ≤ tolerance := by
  simp [same, near_iff]

theorem isStraight_iff : isStraight a b c ↔
    (|a.x - b.x| ≤ tolerance ∧ |b.x - c.x| ≤ tolerance) ∨ (|a.y - b.y| ≤ tolerance ∧ |b.y - c.y| ≤ tolerance) := by
  simp [isStraight, near_iff]

section Segments

-- A point on the straight line between two others.
def OnSegment (a b p : Point Rat) : Prop :=
  ∃ t, 0 ≤ t ∧ t ≤ 1 ∧ p.x = a.x + (b.x - a.x) * t ∧ p.y = a.y + (b.y - a.y) * t

theorem add_sub_mul_le {t w : Rat} (h0 : 0 ≤ t) (h1 : t ≤ 1) (hu : u ≤ w) (hv : v ≤ w) : u + (v - u) * t ≤ w := by
  have := mul_nonneg h0 (sub_nonneg.mpr hv)
  have := mul_nonneg (sub_nonneg.mpr h1) (sub_nonneg.mpr hu)
  linarith

theorem le_add_sub_mul {t w : Rat} (h0 : 0 ≤ t) (h1 : t ≤ 1) (hu : w ≤ u) (hv : w ≤ v) : w ≤ u + (v - u) * t := by
  have := mul_nonneg h0 (sub_nonneg.mpr hv)
  have := mul_nonneg (sub_nonneg.mpr h1) (sub_nonneg.mpr hu)
  linarith

namespace OnSegment

theorem symm (h : OnSegment a b p) : OnSegment b a p := by
  obtain ⟨t, h0, h1, hx, hy⟩ := h
  refine ⟨1 - t, by linarith, by linarith, ?_, ?_⟩
  · rw [hx]
    ring
  · rw [hy]
    ring

theorem y_le (h : OnSegment a b p) (ha : a.y ≤ v) (hb : b.y ≤ v) : p.y ≤ v := by
  obtain ⟨t, h0, h1, _, hy⟩ := h
  exact hy ▸ add_sub_mul_le h0 h1 ha hb

theorem le_y (h : OnSegment a b p) (ha : v ≤ a.y) (hb : v ≤ b.y) : v ≤ p.y := by
  obtain ⟨t, h0, h1, _, hy⟩ := h
  exact hy ▸ le_add_sub_mul h0 h1 ha hb

theorem x_eq (h : OnSegment a b p) (ha : a.x = u) (hb : b.x = u) : p.x = u := by
  obtain ⟨t, _, _, hx, _⟩ := h
  rw [hx, ha, hb, sub_self, zero_mul, add_zero]

theorem abs_x_sub_le (h : OnSegment a b p) (ha : |a.x - u| ≤ v) (hb : |b.x - u| ≤ v) : |p.x - u| ≤ v := by
  obtain ⟨t, h0, h1, hx, _⟩ := h
  obtain ⟨hal, har⟩ := abs_le.mp ha
  obtain ⟨hbl, hbr⟩ := abs_le.mp hb
  have := add_sub_mul_le (w := u + v) h0 h1 (u := a.x) (v := b.x) (by linarith) (by linarith)
  have := le_add_sub_mul (w := u - v) h0 h1 (u := a.x) (v := b.x) (by linarith) (by linarith)
  rw [abs_le, hx]
  constructor <;> linarith

end OnSegment

end Segments

section Bends

theorem bend?_eq_none_iff : bend? verticalFirst a b = none ↔ |a.x - b.x| ≤ tolerance ∨ |a.y - b.y| ≤ tolerance := by
  simp only [bend?, Bool.and_eq_true, apart_iff]
  split
  case isTrue h => simp [h.left, h.right]
  case isFalse h => simpa [or_iff_not_imp_left] using h

theorem eq_of_bend?_eq_some (h : bend? verticalFirst a b = some c) :
    c = if verticalFirst then ⟨a.x, b.y⟩ else ⟨b.x, a.y⟩ := by
  unfold bend? at h
  split at h
  case isTrue => exact (Option.some.inj h).symm
  case isFalse => cases h

theorem bend?_not (a b : Point Rat) : bend? (!verticalFirst) b a = bend? verticalFirst a b := by
  have hx : apart b.x a.x = apart a.x b.x := by rw [Bool.eq_iff_iff, apart_iff, apart_iff, abs_sub_comm]
  have hy : apart b.y a.y = apart a.y b.y := by rw [Bool.eq_iff_iff, apart_iff, apart_iff, abs_sub_comm]
  simp only [bend?, hx, hy]
  cases verticalFirst <;> rfl

theorem withBends_concat (l : List (Point Rat)) (a b : Point Rat) : withBends verticalFirst (l ++ [a] ++ [b]) =
    withBends verticalFirst (l ++ [a]) ++ (bend? verticalFirst a b).toList ++ [b] := by
  induction l
  case nil => simp [withBends]
  case cons c l hi =>
    cases l
    case nil => simp [withBends]
    case cons d l => simpa [withBends] using hi

-- Bends are put into a reversed polyline where they are put into the polyline itself.
theorem withBends_reverse (l : List (Point Rat)) :
    withBends (!verticalFirst) l.reverse = (withBends verticalFirst l).reverse := by
  induction l
  case nil => rfl
  case cons a l hi =>
    cases l
    case nil => rfl
    case cons b l =>
      rw [List.reverse_cons] at hi
      rw [List.reverse_cons, List.reverse_cons, withBends_concat, hi, bend?_not]
      cases h : bend? verticalFirst a b <;> simp [withBends, h]

-- Straight above or below one of two points and beside the other: the bend on the way from `a` to `b`.
def corner (verticalFirst : Bool) (a b : Point Rat) : Point Rat :=
  if verticalFirst then ⟨a.x, b.y⟩ else ⟨b.x, a.y⟩

theorem mem_withBends (h : p ∈ withBends verticalFirst l) :
    p ∈ l ∨ ∃ a b, [a, b] <:+: l ∧ p = corner verticalFirst a b := by
  induction l
  case nil => exact .inl h
  case cons a l hi =>
    cases l
    case nil => exact .inl h
    case cons b l =>
      rw [withBends, List.cons_append, List.mem_cons, List.mem_append, Option.mem_toList] at h
      rcases h with rfl | hbend | h
      · exact .inl List.mem_cons_self
      · exact .inr ⟨a, b, (List.prefix_append [a, b] l).isInfix, eq_of_bend?_eq_some hbend⟩
      · rcases hi h with hp | ⟨c, d, hcd, hp⟩
        · exact .inl (List.mem_cons_of_mem _ hp)
        · exact .inr ⟨c, d, hcd.trans (List.suffix_cons a _).isInfix, hp⟩

-- Straight down first, a bend is as low as the point behind it.
theorem exists_withBends_eq (l : List (Point Rat)) (a : Point Rat) :
    ∃ m, withBends true (a :: l) = a :: m ∧ ∀ p ∈ m, ∃ q ∈ l, p.y = q.y := by
  induction l generalizing a
  case nil => exact ⟨[], rfl, by simp⟩
  case cons b l hi =>
    have ⟨m, hm, hy⟩ := hi b
    refine ⟨(bend? true a b).toList ++ b :: m, by rw [withBends, hm, List.cons_append], fun p hp => ?_⟩
    rcases List.mem_append.mp hp with hp | hp
    · have := eq_of_bend?_eq_some (Option.mem_toList.mp hp)
      exact ⟨b, List.mem_cons_self, by rw [this]; rfl⟩
    · rcases List.mem_cons.mp hp with rfl | hp
      · exact ⟨p, List.mem_cons_self, rfl⟩
      · have ⟨q, hq, hpq⟩ := hy p hp
        exact ⟨q, List.mem_cons_of_mem _ hq, hpq⟩

-- A polyline down one column has no slanted segment.
theorem withBends_of_x_eq {t : Rat} (h : ∀ p ∈ l, p.x = t) : withBends verticalFirst l = l := by
  induction l
  case nil => rfl
  case cons a l hi =>
    cases l
    case nil => rfl
    case cons b l =>
      have hx : a.x = b.x := (h a (by simp)).trans (h b (by simp)).symm
      have hnone : bend? verticalFirst a b = none := by
        rw [bend?_eq_none_iff, hx, sub_self, abs_zero, tolerance_eq]
        exact .inl (by norm_num)
      rw [withBends, hnone, hi fun p hp => h p (List.mem_cons_of_mem _ hp)]
      rfl

theorem isChain_withBends (hn : ∀ a b, R a b → bend? verticalFirst a b = none → S a b)
    (hs : ∀ a b c, R a b → bend? verticalFirst a b = some c → S a c ∧ S c b) (h : l.IsChain R) :
    (withBends verticalFirst l).IsChain S := by
  induction l
  case nil => exact .nil
  case cons a l hi =>
    cases l
    case nil => exact .singleton _
    case cons b l =>
      obtain ⟨hab, hl⟩ := List.isChain_cons_cons.mp h
      have hi := hi hl
      have hhead : ∃ m, withBends verticalFirst (b :: l) = b :: m := by
        cases l <;> exact ⟨_, rfl⟩
      obtain ⟨m, hm⟩ := hhead
      rw [hm] at hi
      rw [withBends, hm]
      cases hc : bend? verticalFirst a b
      case none => exact .cons_cons (hn a b hab hc) hi
      case some c =>
        obtain ⟨hac, hcb⟩ := hs a b c hab hc
        exact .cons_cons hac (.cons_cons hcb hi)

end Bends

section Dropped

theorem exists_dropRepeats_eq (k : Point Rat) (l : List (Point Rat)) :
    ∃ m, dropRepeats k l = k :: m ∧ m.Sublist l := by
  induction l generalizing k
  case nil => exact ⟨[], rfl, .slnil⟩
  case cons p l hi =>
    by_cases h : same k p = true
    case pos =>
      have ⟨m, hm, hs⟩ := hi k
      exact ⟨m, by rw [dropRepeats, if_pos h, hm], hs.cons _⟩
    case neg =>
      have ⟨m, hm, hs⟩ := hi p
      exact ⟨p :: m, by rw [dropRepeats, if_neg h, hm], hs.cons_cons _⟩

-- A last point that is not the same as any other is not dropped.
theorem dropRepeats_concat (h : ∀ p ∈ k :: l, same p z = false) : dropRepeats k (l ++ [z]) = dropRepeats k l ++ [z] := by
  induction l generalizing k
  case nil => simp [dropRepeats, h k]
  case cons p l hi =>
    have hp : dropRepeats p (l ++ [z]) = dropRepeats p l ++ [z] := hi fun q hq => h q (List.mem_cons_of_mem _ hq)
    have hk : dropRepeats k (l ++ [z]) = dropRepeats k l ++ [z] := hi fun q hq => h q (by grind)
    rw [List.cons_append, dropRepeats, dropRepeats, hp, hk]
    split <;> rfl

-- Each dropped point is the same as the one kept before it, so that the kept one takes its place.
theorem isChain_dropRepeats (hR : ∀ p q, R p q → S p q) (hS : ∀ k p q, Q k → Q p → same k p → R p q → S k q)
    (hQ : ∀ p ∈ k :: l, Q p) (h : (k :: l).IsChain R) : (dropRepeats k l).IsChain S := by
  -- the induction is on the points left, for any point `p` before them in whose place one is kept
  suffices general : ∀ k p, Q k → Q p → k = p ∨ same k p → (p :: l).IsChain R → (dropRepeats k l).IsChain S from
    general k k (hQ k List.mem_cons_self) (hQ k List.mem_cons_self) (.inl rfl) h
  replace hQ : ∀ p ∈ l, Q p := fun p hp => hQ p (List.mem_cons_of_mem _ hp)
  clear h
  induction l
  case nil => exact fun k p _ _ _ _ => .singleton _
  case cons q l hi =>
    intro k p hk hp hkp h
    obtain ⟨hpq, hl⟩ := List.isChain_cons_cons.mp h
    have hq := hQ q List.mem_cons_self
    have hi := hi fun p hp => hQ p (List.mem_cons_of_mem _ hp)
    have hkq : S k q := by
      rcases hkp with rfl | hkp
      · exact hR _ _ hpq
      · exact hS _ _ _ hk hp hkp hpq
    rw [dropRepeats]
    split
    case isTrue hs => exact hi k q hk hq (.inr hs) hl
    case isFalse =>
      have hi := hi q q hq hq (.inl rfl) hl
      have ⟨m, hm, _⟩ := exists_dropRepeats_eq q l
      rw [hm] at hi ⊢
      exact .cons_cons hkq hi

theorem exists_dropStraight_eq (k : Point Rat) (l : List (Point Rat)) (z : Point Rat) :
    ∃ m, dropStraight k (l ++ [z]) = k :: m ++ [z] ∧ m.Sublist l := by
  induction l generalizing k
  case nil => exact ⟨[], rfl, .slnil⟩
  case cons p l hi =>
    obtain ⟨q, r, hqr⟩ := List.exists_cons_of_ne_nil (List.append_ne_nil_of_right_ne_nil l (List.cons_ne_nil z []))
    rw [List.cons_append, hqr, dropStraight, ← hqr]
    split
    case isTrue =>
      have ⟨m, hm, hs⟩ := hi k
      exact ⟨m, hm, hs.cons _⟩
    case isFalse =>
      have ⟨m, hm, hs⟩ := hi p
      exact ⟨p :: m, by rw [hm]; rfl, hs.cons_cons _⟩

-- From the last point kept, the relation holds to whichever point comes next.
theorem isChain_dropStraight (hR : ∀ p q, R p q → S p q)
    (hS : ∀ k p q, Q k → Q p → Q q → isStraight k p q → S k p → R p q → S k q) (hQ : ∀ q ∈ k :: p :: l, Q q)
    (hkp : S k p) (h : (p :: l).IsChain R) : (dropStraight k (p :: l)).IsChain S := by
  induction l generalizing k p
  case nil => exact .cons_cons hkp (.singleton _)
  case cons q l hi =>
    obtain ⟨hpq, hl⟩ := List.isChain_cons_cons.mp h
    rw [dropStraight]
    split
    case isTrue hs =>
      exact hi (by grind) (hS k p q (hQ k (by simp)) (hQ p (by simp)) (hQ q (by simp)) hs hkp hpq) hl
    case isFalse =>
      have hi := hi (k := p) (p := q) (by grind) (hR _ _ hpq) hl
      obtain ⟨r, m, hrm⟩ : ∃ r m, q :: l = r ++ [m] := ⟨_, _, (List.dropLast_append_getLast (by simp)).symm⟩
      obtain ⟨s, hs, _⟩ := exists_dropStraight_eq p r m
      rw [hrm, hs] at hi ⊢
      exact .cons_cons hkp hi

-- Both ends of a polyline stay if nothing is the same as its last point.
theorem exists_simplify_eq (h : ∀ p ∈ a :: l, same p z = false) :
    ∃ m, simplify (a :: l ++ [z]) = a :: m ++ [z] ∧ m.Sublist l := by
  obtain ⟨r, hr, hrl⟩ := exists_dropRepeats_eq a l
  obtain ⟨m, hm, hmr⟩ := exists_dropStraight_eq a r z
  refine ⟨m, ?_, hmr.trans hrl⟩
  rw [List.cons_append, simplify, dropRepeats_concat h, hr, ← hm]
  cases r <;> rfl

theorem isChain_simplify {T : Point Rat → Point Rat → Prop} (h : ∀ p ∈ a :: l, same p z = false)
    (hQ : ∀ p ∈ a :: l ++ [z], Q p) (hR : ∀ p q, R p q → S p q)
    (hS : ∀ k p q, Q k → Q p → same k p → R p q → S k q) (hS' : ∀ p q, S p q → T p q)
    (hT : ∀ k p q, Q k → Q p → Q q → isStraight k p q → T k p → S p q → T k q)
    (hc : (a :: l ++ [z]).IsChain R) : (simplify (a :: l ++ [z])).IsChain T := by
  have hd : (dropRepeats a (l ++ [z])).IsChain S := isChain_dropRepeats hR hS hQ hc
  obtain ⟨r, hr, hrl⟩ := exists_dropRepeats_eq a l
  have hsub : ∀ p ∈ a :: (r ++ [z]), Q p := fun p hp =>
    hQ p (((hrl.append (List.Sublist.refl [z])).cons_cons a).subset hp)
  rw [List.cons_append, simplify]
  rw [dropRepeats_concat h, hr] at hd ⊢
  obtain ⟨q, s, hqs⟩ := List.exists_cons_of_ne_nil (List.append_ne_nil_of_right_ne_nil r (List.cons_ne_nil z []))
  rw [List.cons_append, hqs] at hd ⊢
  rw [hqs] at hsub
  obtain ⟨haq, hq⟩ := List.isChain_cons_cons.mp hd
  exact isChain_dropStraight hS' hT hsub (hS' _ _ haq) hq

end Dropped

section Clipped

-- On one of the horizontal edges of a box, or on the other side of it: below for sign 1, above for sign -1.
def Beyond (sign : Rat) (box : Box Rat) (p : Point Rat) : Prop :=
  box.halfHeight ≤ sign * (p.y - box.y)

theorem Beyond.le_abs (hs : |sign| = 1) (h : Beyond sign box p) : box.halfHeight ≤ |p.y - box.y| := by
  have := le_abs_self (sign * (p.y - box.y))
  rw [abs_mul, hs, one_mul] at this
  exact le_trans h this

-- Both half extents are well above the tolerance.
def Thick (box : Box Rat) : Prop :=
  1 / 2000 ≤ box.halfWidth ∧ 1 / 2000 ≤ box.halfHeight

theorem Thick.hasArea (h : Thick box) : box.hasArea := by
  obtain ⟨hw, hh⟩ := h
  simp only [Box.hasArea, Bool.and_eq_true, decide_eq_true_eq]
  exact ⟨by linarith, by linarith⟩

theorem Thick.inside_center (h : Thick box) : inside box box.center := by
  obtain ⟨hw, hh⟩ := h
  simp only [inside, Box.center, sub_self, Scalar.magnitude_eq_abs, abs_zero, tolerance_eq, Bool.and_eq_true, decide_eq_true_eq]
  exact ⟨by linarith, by linarith⟩

theorem Beyond.not_inside (hs : |sign| = 1) (h : Beyond sign box p) : inside box p = false := by
  have hy : ¬|p.y - box.y| < box.halfHeight - tolerance := by
    rw [tolerance_eq, not_lt]
    exact le_trans (by linarith) (h.le_abs hs)
  simp [inside, Scalar.magnitude_eq_abs, hy]

theorem border_of_sign {c h d : Rat} (hs : |sign| = 1) (hd : 0 < sign * d) : border c h d = c + sign * h := by
  rcases (abs_eq one_pos.le).mp hs with rfl | rfl
  · rw [one_mul] at hd
    rw [border, if_pos hd, one_mul]
  · rw [neg_one_mul, neg_pos] at hd
    rw [border, if_neg hd.le.not_gt, neg_one_mul, sub_eq_add_neg]

theorem border_sub_div (c h d : Rat) : (border c h d - c) / d = h / |d| := by
  unfold border
  split
  case isTrue hd => rw [abs_of_pos hd, add_sub_cancel_left]
  case isFalse hd => rw [abs_of_nonpos (not_lt.mp hd), sub_sub_cancel_left, neg_div, div_neg]

theorem border_eq {c h d : Rat} (hd : d ≠ 0) : c + d * (h / |d|) = border c h d := by
  rw [← border_sub_div, mul_div_cancel₀ _ hd, add_sub_cancel]

theorem part_center (c h d t : Rat) : part c c h d t = if apart d 0 then min t (h / |d|) else t := by
  rw [part, border_sub_div, Scalar.smaller_eq_min]

theorem land_border (c h d : Rat) : land (border c h d) c h d = border c h d := by
  unfold land
  split <;> rfl

-- Far from both edges a coordinate stays as it is.
theorem land_eq_self {c h d : Rat} (hv : |v - c| + 1 / 1000000 ≤ h) : land v c h d = v := by
  have hfar : ¬|(|v - c| - h)| < 1e-6 := by
    rw [not_lt, abs_sub_comm]
    refine le_trans ?_ (le_abs_self _)
    norm_num
    linarith
  rw [land, Scalar.magnitude_eq_abs, Scalar.magnitude_eq_abs, if_neg]
  rw [Bool.and_eq_true, not_and]
  exact fun _ => by simpa using hfar

-- Where a line from the centre of a box to a point crosses the edge above or below.
structure Crosses (sign : Rat) (box : Box Rat) (q e : Point Rat) : Prop where
  y : e.y = box.y + sign * box.halfHeight
  line : OnSegment box.center q e

-- A line that leads almost straight up or down leaves a box through the edge there.
theorem Thick.crosses_exit (h : Thick box) (hs : |sign| = 1) (hx : |q.x - box.x| ≤ 1 / 10000000)
    (hq : Beyond sign box q) : Crosses sign box q (exit box box.center q) := by
  obtain ⟨hw, hh⟩ := h
  have hle := hq.le_abs hs
  have hdy : 0 < |q.y - box.y| := by linarith
  have hapart : apart (q.y - box.y) 0 := by
    rw [apart_iff, sub_zero, tolerance_eq]
    linarith
  have hacross : part box.x box.x box.halfWidth (q.x - box.x) 1 = 1 := by
    rw [part_center]
    split
    case isTrue ha =>
      rw [apart_iff, sub_zero, tolerance_eq] at ha
      exact min_eq_left ((one_le_div (by linarith)).mpr (by linarith))
    case isFalse => rfl
  have hdown : part box.y box.y box.halfHeight (q.y - box.y) 1 = box.halfHeight / |q.y - box.y| := by
    rw [part_center, if_pos hapart]
    exact min_eq_right ((div_le_one hdy).mpr hle)
  let t := box.halfHeight / |q.y - box.y|
  have ht : 0 ≤ t := div_nonneg (by linarith) hdy.le
  have ht1 : t ≤ 1 := (div_le_one hdy).mpr hle
  have hexit : exit box box.center q = ⟨land (box.x + (q.x - box.x) * t) box.x box.halfWidth (q.x - box.x),
      land (box.y + (q.y - box.y) * t) box.y box.halfHeight (q.y - box.y)⟩ := by
    simp only [exit, Box.center, hacross, hdown, Scalar.larger_eq_max]
    rw [max_eq_right ht]
  have hy : box.y + (q.y - box.y) * t = border box.y box.halfHeight (q.y - box.y) :=
    border_eq (abs_pos.mp hdy)
  -- the line is still near the centre there, far from the edges on the left and on the right
  have habs : |(q.x - box.x) * t| ≤ 1 / 10000000 := by
    rw [abs_mul, abs_of_nonneg ht]
    exact (mul_le_of_le_one_right (abs_nonneg _) ht1).trans hx
  rw [hexit, hy, land_border, land_eq_self (by rw [add_sub_cancel_left]; linarith)]
  exact ⟨border_of_sign hs (lt_of_lt_of_le (by linarith) hq), t, ht, ht1, rfl, hy.symm⟩

theorem Crosses.abs_sub_center_le (h : Crosses sign box q p) : |p.x - box.x| ≤ |q.x - box.x| :=
  h.line.abs_x_sub_le (by simp) le_rfl

theorem Crosses.abs_sub_le (h : Crosses sign box q p) : |p.x - q.x| ≤ |q.x - box.x| :=
  h.line.abs_x_sub_le (by rw [Box.center_x, abs_sub_comm]) (by simp)

-- Cut off at the box around its first point, a polyline starts where it leaves the box.
theorem clipStart_eq (h : inside box a) (hq : inside box q = false) : ∃ m,
    clipStart box (a :: q :: l) = exit box a q :: m ∧ (m = q :: l ∨ same (exit box a q) q ∧ m = l ∧ l ≠ []) := by
  simp only [clipStart, h, if_true, leave?, hq, Bool.false_eq_true, if_false, Option.getD_some]
  refine ⟨_, rfl, ?_⟩
  by_cases hs : same (exit box a q) q = true
  case neg => simp [hs]
  case pos => cases l <;> simp [hs]

theorem clipStartAt_some (h : box.hasArea) (l : List (Point Rat)) : clipStartAt (some box) l = clipStart box l :=
  if_pos h

-- The first point behind the start is dropped if the polyline starts there, unless it is the last one.
structure Cut (sign : Rat) (box : Box Rat) (l : List (Point Rat)) (z q e : Point Rat) (m : List (Point Rat)) :
    Prop where
  head : (l ++ [z]).head? = some q
  crosses : Crosses sign box q e
  rest : m = l ∨ same e q ∧ l = q :: m

theorem Thick.exists_cut (h : Thick box) (hs : |sign| = 1) (hl : ∀ p ∈ l ++ [z], Beyond sign box p)
    (hx : ∀ q, (l ++ [z]).head? = some q → |q.x - box.x| ≤ 1 / 10000000) :
    ∃ q e m, Cut sign box l z q e m ∧ clipStart box (box.center :: l ++ [z]) = e :: m ++ [z] := by
  cases l
  case nil =>
    have hz := hl z (by simp)
    obtain ⟨m, hm, hmz⟩ := clipStart_eq (l := []) h.inside_center (hz.not_inside hs)
    refine ⟨z, _, [], ⟨rfl, h.crosses_exit hs (hx z rfl) hz, .inl rfl⟩, ?_⟩
    rw [List.cons_append, List.nil_append, hm]
    rcases hmz with rfl | ⟨_, _, hn⟩
    · rfl
    · exact absurd rfl hn
  case cons q l =>
    have hq := hl q (by simp)
    obtain ⟨m, hm, hmq⟩ := clipStart_eq (l := l ++ [z]) h.inside_center (hq.not_inside hs)
    have hc := h.crosses_exit hs (hx q rfl) hq
    rcases hmq with rfl | ⟨he, rfl, _⟩
    · exact ⟨q, _, q :: l, ⟨rfl, hc, .inl rfl⟩, hm⟩
    · exact ⟨q, _, l, ⟨rfl, hc, .inr ⟨he, rfl⟩⟩, hm⟩

theorem Cut.subset {e : Point Rat} {m : List (Point Rat)} (h : Cut sign box l z q e m) : m ⊆ l := by
  rcases h.rest with rfl | ⟨_, rfl⟩
  · exact List.Subset.refl _
  · exact List.subset_cons_self ..

theorem Cut.isChain {e : Point Rat} {m : List (Point Rat)} (h : Cut sign box l z q e m)
    (hR : ∀ p q, R p q → S p q) (he : R a q → S e q) (hs : ∀ r, same e q → R q r → S e r)
    (hc : (a :: l ++ [z]).IsChain R) : (e :: m ++ [z]).IsChain S := by
  obtain ⟨r, hr⟩ := List.head?_eq_some_iff.mp h.head
  rw [List.cons_append, hr] at hc
  obtain ⟨haq, hc⟩ := List.isChain_cons_cons.mp hc
  rcases h.rest with rfl | ⟨hsame, rfl⟩
  · rw [List.cons_append, hr]
    exact .cons_cons (he haq) (hc.imp hR)
  · obtain rfl : m ++ [z] = r := (List.cons.inj hr).right
    rcases m with _ | ⟨r, m⟩
    · obtain ⟨hqz, _⟩ := List.isChain_cons_cons.mp hc
      exact .cons_cons (hs z hsame hqz) (.singleton _)
    · obtain ⟨hqr, hc⟩ := List.isChain_cons_cons.mp hc
      exact .cons_cons (hs r hsame hqr) (hc.imp hR)

end Clipped

end Route

end LayeredDiagram
