import LayeredDiagram.Proofs.Polylines
/-!
Routes between two boxes. A polyline from the centre of one box to the centre of the other, of which all points
between lie above one and below the other, is cut off at the edges that face each other. Its segments stay
horizontal or vertical up to a few times the tolerance.
-/

namespace LayeredDiagram.Route

variable {a b c k p q z : Point Rat} {l : List (Point Rat)} {sign ε δ : Rat} {verticalFirst : Bool}
variable {box first last : Box Rat}

-- Two points on a horizontal or a vertical line, up to a distance.
def Aligned (ε : Rat) (a b : Point Rat) : Prop :=
  |a.x - b.x| ≤ ε ∨ |a.y - b.y| ≤ ε

namespace Aligned

theorem mono (h : Aligned ε a b) (hε : ε ≤ δ) : Aligned δ a b := by
  cases h
  case inl h => exact .inl (h.trans hε)
  case inr h => exact .inr (h.trans hε)

theorem symm (h : Aligned ε a b) : Aligned ε b a := by
  rwa [Aligned, abs_sub_comm, abs_sub_comm b.y]

theorem of_same (h : same k p) (hp : Aligned ε p q) : Aligned (ε + tolerance) k q := by
  obtain ⟨hx, hy⟩ := same_iff.mp h
  cases hp
  case inl hp => exact .inl (by linarith [abs_sub_le k.x p.x q.x])
  case inr hp => exact .inr (by linarith [abs_sub_le k.y p.y q.y])

theorem of_isStraight (h : isStraight k p q) : Aligned (2 * tolerance) k q := by
  cases isStraight_iff.mp h
  case inl h => exact .inl (by linarith [abs_sub_le k.x p.x q.x, h.left, h.right])
  case inr h => exact .inr (by linarith [abs_sub_le k.y p.y q.y, h.left, h.right])

-- Far above or below a centre, only points straight above or below it are aligned with it.
theorem abs_x_le (h : Aligned ε box.center q) (hε : ε < 1 / 2000) (ht : Thick box) (hs : |sign| = 1)
    (hq : Beyond sign box q) : |q.x - box.x| ≤ ε := by
  cases h
  case inl h => rwa [abs_sub_comm]
  case inr h =>
    have := hq.le_abs hs
    have := ht.right
    rw [abs_sub_comm, Box.center_y] at h
    linarith

end Aligned

theorem aligned_withBends (verticalFirst : Bool) (l : List (Point Rat)) :
    (withBends verticalFirst l).IsChain (Aligned tolerance) := by
  have htrue : l.IsChain fun _ _ => True :=
    List.isChain_iff_forall_rel_of_append_cons_cons.mpr fun _ _ _ _ _ => trivial
  have hpos := tolerance_nonneg
  refine isChain_withBends (fun a b _ h => bend?_eq_none_iff.mp h) (fun a b c _ h => ?_) htrue
  rw [eq_of_bend?_eq_some h]
  cases verticalFirst
  case false => exact ⟨.inr (by simpa using hpos), .inl (by simpa using hpos)⟩
  case true => exact ⟨.inl (by simpa using hpos), .inr (by simpa using hpos)⟩

-- The same two points up to a distance in each coordinate.
def Close (ε : Rat) (a b : Point Rat) : Prop :=
  |a.x - b.x| ≤ ε ∧ |a.y - b.y| ≤ ε

-- The last point kept is almost the last point.
theorem exists_getLast?_dropRepeats (k : Point Rat) (l : List (Point Rat)) :
    ∃ q, (dropRepeats k l).getLast? = some q ∧ Close tolerance q (l.getLastD k) := by
  have hpos := tolerance_nonneg
  have hself (p : Point Rat) : Close tolerance p p := by simp [Close, hpos]
  -- the induction is on the points left, for any point `p` before them in whose place one is kept
  suffices general : ∀ k p, Close tolerance k p →
      ∃ q, (dropRepeats k l).getLast? = some q ∧ Close tolerance q (l.getLastD p) from general k k (hself k)
  induction l
  case nil => exact fun k p hkp => ⟨k, rfl, hkp⟩
  case cons r l hi =>
    intro k p _
    rw [dropRepeats, List.getLastD_cons]
    split
    case isTrue hs => exact hi k r (same_iff.mp hs)
    case isFalse =>
      obtain ⟨q, hq, hclose⟩ := hi r r (hself r)
      exact ⟨q, by rw [List.getLast?_cons, hq, Option.getD_some], hclose⟩

theorem aligned_simplify (h : l.IsChain (Aligned tolerance)) : (simplify l).IsChain (Aligned (2 * tolerance)) := by
  have hpos := tolerance_nonneg
  have hle : (tolerance : Rat) ≤ 2 * tolerance := by linarith
  rcases l with _ | ⟨a, l⟩
  · exact .nil
  have hd : (dropRepeats a l).IsChain (Aligned (2 * tolerance)) := by
    refine isChain_dropRepeats (Q := fun _ => True) (fun _ _ hpq => hpq.mono hle) (fun k p q _ _ hkp hpq => ?_)
      (fun _ _ => trivial) h
    rw [two_mul]
    exact hpq.of_same hkp
  obtain ⟨z, hz, hclose⟩ := exists_getLast?_dropRepeats a l
  obtain ⟨m, hm, -⟩ := exists_dropRepeats_eq a l
  rw [hm] at hd hz
  rw [simplify, hm]
  rcases m with _ | ⟨p, m⟩
  · obtain rfl : a = z := by simpa using hz
    rcases l with _ | ⟨b, l⟩
    · exact .singleton _
    · exact .cons_cons (.inl (hclose.left.trans hle)) (.singleton _)
  · obtain ⟨hap, hp⟩ := List.isChain_cons_cons.mp hd
    exact isChain_dropStraight (Q := fun _ => True) (fun _ _ hpq => hpq)
      (fun _ _ _ _ _ _ hs _ _ => .of_isStraight hs) (fun _ _ => trivial) hap hp

-- Cut off at a box that it leaves straight up or down, a polyline stays along the axes.
theorem Thick.exists_cut_of_aligned (h : Thick box) (hs : |sign| = 1) (hε : ε ≤ 1 / 10000000)
    (hl : ∀ p ∈ l ++ [z], Beyond sign box p) (hc : (box.center :: l ++ [z]).IsChain (Aligned ε)) :
    ∃ q e m, Cut sign box l z q e m ∧ |q.x - box.x| ≤ ε ∧ clipStart box (box.center :: l ++ [z]) = e :: m ++ [z] ∧
      (e :: m ++ [z]).IsChain (Aligned (ε + tolerance)) := by
  have hpos := tolerance_nonneg
  have near {q : Point Rat} (hq : (l ++ [z]).head? = some q) : |q.x - box.x| ≤ ε := by
    obtain ⟨r, hr⟩ := List.head?_eq_some_iff.mp hq
    rw [List.cons_append, hr] at hc
    apply (List.isChain_cons_cons.mp hc).left.abs_x_le (by linarith) h hs
    exact hl q (List.mem_of_mem_head? hq)
  obtain ⟨q, e, m, hcut, hclip⟩ := h.exists_cut hs hl fun q hq => (near hq).trans hε
  refine ⟨q, e, m, hcut, near hcut.head, hclip, ?_⟩
  apply hcut.isChain (fun _ _ hpq => hpq.mono (by linarith)) (fun _ => ?_) (fun r hs hqr => hqr.of_same hs) hc
  exact .inl (hcut.crosses.abs_sub_le.trans ((near hcut.head).trans (by linarith)))

-- The points between two boxes lie on the sides on which the boxes face each other.
structure Spans (sign : Rat) (first last : Box Rat) (l : List (Point Rat)) : Prop where
  abs_sign : |sign| = 1
  thick_first : Thick first
  thick_last : Thick last
  beyond : ∀ p ∈ l, Beyond sign first p
  before : ∀ p ∈ l, Beyond (-sign) last p
  apart : first.halfHeight + last.halfHeight ≤ sign * (last.y - first.y)

-- A polyline of at least one segment, along the axes, from one point to another.
structure Joins (ε : Rat) (start stop : Point Rat) (points : List (Point Rat)) : Prop where
  length : 2 ≤ points.length
  aligned : points.IsChain (Aligned ε)
  start : ∃ p, points.head? = some p ∧ Close ε p start
  stop : ∃ p, points.getLast? = some p ∧ Close ε p stop

theorem Crosses.beyond_of_apart {e : Point Rat} (h : Crosses sign first q e)
    (ha : first.halfHeight + last.halfHeight ≤ sign * (last.y - first.y)) (hs : |sign| = 1) :
    Beyond (-sign) last e := by
  have hsq : sign * sign = 1 := by rw [← abs_mul_abs_self, hs, one_mul]
  have : -sign * (e.y - last.y) = sign * (last.y - first.y) - sign * sign * first.halfHeight := by
    rw [h.y]
    ring
  rw [Beyond, this, hsq]
  linarith

theorem Crosses.beyond {e : Point Rat} (h : Crosses sign box q e) (hs : |sign| = 1) : Beyond sign box e := by
  have hsq : sign * sign = 1 := by rw [← abs_mul_abs_self, hs, one_mul]
  rw [Beyond, h.y, add_sub_cancel_left, ← mul_assoc, hsq, one_mul]

namespace Spans

variable (h : Spans sign first last l)
include h

theorem abs_neg_sign : |(-sign)| = 1 := by
  rw [abs_neg, h.abs_sign]

theorem beyond_last : Beyond sign first last.center := by
  have := h.thick_last.right
  have := h.apart
  rw [Beyond, Box.center]
  linarith

theorem before_first : Beyond (-sign) last first.center := by
  have := h.thick_first.right
  have := h.apart
  rw [Beyond, Box.center]
  linarith

theorem beyond_all : ∀ p ∈ l ++ [last.center], Beyond sign first p :=
  List.forall_mem_append.mpr ⟨h.beyond, List.forall_mem_singleton.mpr h.beyond_last⟩

theorem before_all : ∀ p ∈ first.center :: l, Beyond (-sign) last p :=
  List.forall_mem_cons.mpr ⟨h.before_first, h.before⟩

theorem not_same : ∀ p ∈ first.center :: l, same p last.center = false := by
  intro p hp
  have hle := (h.before_all p hp).le_abs h.abs_neg_sign
  have := h.thick_last.right
  refine Bool.eq_false_iff.mpr fun hsame => ?_
  have := (same_iff.mp hsame).right
  rw [tolerance_eq, Box.center_y] at this
  linarith

theorem of_subset {m : List (Point Rat)} (hm : m ⊆ l) : Spans sign first last m where
  abs_sign := h.abs_sign
  thick_first := h.thick_first
  thick_last := h.thick_last
  beyond p hp := h.beyond p (hm hp)
  before p hp := h.before p (hm hp)
  apart := h.apart

theorem reverse : Spans (-sign) last first l.reverse where
  abs_sign := h.abs_neg_sign
  thick_first := h.thick_last
  thick_last := h.thick_first
  beyond p hp := h.before p (List.mem_reverse.mp hp)
  before p hp := by simpa using h.beyond p (List.mem_reverse.mp hp)
  apart := by
    have := h.apart
    linarith

-- Both ends are cut off, the first one first.
theorem exists_clip_eq (hε : ε + tolerance ≤ 1 / 10000000)
    (hc : (first.center :: l ++ [last.center]).IsChain (Aligned ε)) : ∃ q e m r f t,
      Cut sign first l last.center q e m ∧ |q.x - first.x| ≤ ε ∧
      Cut (-sign) last m.reverse e r f t ∧ |r.x - last.x| ≤ ε + tolerance ∧
      clip (some first) (some last) (first.center :: l ++ [last.center]) = e :: t.reverse ++ [f] ∧
      (e :: t.reverse ++ [f]).IsChain (Aligned (ε + tolerance + tolerance)) := by
  have hpos := tolerance_nonneg
  have reverse_eq (a z : Point Rat) (l : List (Point Rat)) : (a :: l ++ [z]).reverse = z :: l.reverse ++ [a] := by simp
  obtain ⟨q, e, m, hcut, hq, hclip, hchain⟩ :=
    h.thick_first.exists_cut_of_aligned h.abs_sign (by linarith) h.beyond_all hc
  have hbefore : ∀ p ∈ m.reverse ++ [e], Beyond (-sign) last p := by
    refine List.forall_mem_append.mpr ⟨fun p hp => h.before p (hcut.subset (List.mem_reverse.mp hp)), ?_⟩
    exact List.forall_mem_singleton.mpr (hcut.crosses.beyond_of_apart h.apart h.abs_sign)
  have hrev := List.isChain_reverse.mpr (hchain.imp fun _ _ => Aligned.symm)
  rw [reverse_eq] at hrev
  obtain ⟨r, f, t, hcut', hr, hclip', hchain'⟩ :=
    h.thick_last.exists_cut_of_aligned h.abs_neg_sign hε hbefore hrev
  have hfinal := List.isChain_reverse.mpr (hchain'.imp fun _ _ => Aligned.symm)
  rw [reverse_eq] at hfinal
  refine ⟨q, e, m, r, f, t, hcut, hq, hcut', hr, ?_, hfinal⟩
  rw [clip, if_neg (by simp), clipStartAt_some h.thick_first.hasArea, clipStartAt_some h.thick_last.hasArea, hclip,
    reverse_eq, hclip', reverse_eq]

-- A polyline whose segments are horizontal or vertical, or slanted by little, becomes a route with its ends on the edges
-- that face each other, almost in their middle.
theorem exists_route (hc : (first.center :: l ++ [last.center]).IsChain (Aligned tolerance)) : ∃ a m b,
    clip (some first) (some last) (simplify (first.center :: l ++ [last.center])) = a :: m ++ [b] ∧ m ⊆ l ∧
      (a :: m ++ [b]).IsChain (Aligned (1 / 100000000)) ∧ a.y = first.y + sign * first.halfHeight ∧
      b.y = last.y - sign * last.halfHeight ∧ |a.x - first.x| ≤ 1 / 100000000 ∧ |b.x - last.x| ≤ 1 / 100000000 := by
  have hs := aligned_simplify hc
  obtain ⟨s, hsimp, hsl⟩ := exists_simplify_eq h.not_same
  rw [hsimp] at hs ⊢
  obtain ⟨q, e, m, r, f, t, hcut, hq, hcut', hr, hclip, hchain⟩ :=
    (h.of_subset hsl.subset).exists_clip_eq (by rw [tolerance_eq]; norm_num) hs
  have hx := hcut.crosses.abs_sub_center_le.trans hq
  have hx' := hcut'.crosses.abs_sub_center_le.trans hr
  have hsub : t.reverse ⊆ l := fun p hp =>
    hsl.subset (hcut.subset (List.mem_reverse.mp (hcut'.subset (List.mem_reverse.mp hp))))
  rw [tolerance_eq] at hx hx' hchain
  refine ⟨e, t.reverse, f, hclip, hsub, hchain.imp fun _ _ h => h.mono (by norm_num), hcut.crosses.y, ?_,
    hx.trans (by norm_num), hx'.trans (by norm_num)⟩
  rw [hcut'.crosses.y, neg_mul, ← sub_eq_add_neg]

theorem joins (hc : (first.center :: l ++ [last.center]).IsChain (Aligned tolerance)) :
    Joins (1 / 100000000) ⟨first.x, first.y + sign * first.halfHeight⟩ ⟨last.x, last.y - sign * last.halfHeight⟩
      (clip (some first) (some last) (simplify (first.center :: l ++ [last.center]))) := by
  obtain ⟨a, m, b, hclip, _, hchain, hay, hby, hax, hbx⟩ := h.exists_route hc
  rw [hclip]
  refine ⟨by simp, hchain, ⟨a, rfl, hax, ?_⟩, b, List.getLast?_concat .., hbx, ?_⟩
  · rw [hay]
    norm_num
  · rw [hby]
    norm_num

end Spans

end LayeredDiagram.Route
