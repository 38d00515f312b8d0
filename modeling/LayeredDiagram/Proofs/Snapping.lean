import LayeredDiagram.Proofs.Routes
/-!
What becomes of a polyline that is made orthogonal. Points are dropped in runs of any length, but each next point is
compared with the last one kept, so that what is lost on the way does not add up.
-/

namespace LayeredDiagram.Route

variable {l : List (Point Rat)} {verticalFirst : Bool}

theorem head?_withBends (l : List (Point Rat)) : (withBends verticalFirst l).head? = l.head? := by
  rcases l with _ | ⟨a, _ | ⟨b, l⟩⟩ <;> rfl

theorem getLast?_withBends (l : List (Point Rat)) : (withBends verticalFirst l).getLast? = l.getLast? := by
  rw [← List.head?_reverse, ← withBends_reverse, head?_withBends, List.head?_reverse]

theorem length_le_withBends (verticalFirst : Bool) (l : List (Point Rat)) :
    l.length ≤ (withBends verticalFirst l).length := by
  induction l
  case nil => exact le_rfl
  case cons a l hi =>
    cases l
    case nil => exact le_rfl
    case cons b l =>
      rw [withBends, List.cons_append, List.length_cons, List.length_cons (a := a), List.length_append]
      omega

-- The ends of what is left without repeated points stay. If this is a single point, both ends of the polyline stay.
theorem exists_ends_simplify (h : 2 ≤ l.length) : ∃ a m z p, simplify l = a :: m ++ [z] ∧ l.head? = some a ∧
    a :: m ++ [z] ⊆ l ∧ l.getLast? = some p ∧ Close tolerance z p := by
  have hpos := tolerance_nonneg
  obtain ⟨a, b, l, rfl⟩ : ∃ a b r, l = a :: b :: r := by
    rcases l with _ | ⟨a, _ | ⟨b, r⟩⟩
    · simp at h
    · simp at h
    · exact ⟨a, b, r, rfl⟩
  have hlast : (a :: b :: l).getLast? = some ((b :: l).getLastD a) := by
    rw [List.getLast?_cons, List.getLastD_eq_getLast?]
  obtain ⟨q, hq, hclose⟩ := exists_getLast?_dropRepeats a (b :: l)
  obtain ⟨m, hm, hml⟩ := exists_dropRepeats_eq a (b :: l)
  rw [hm] at hq
  rcases List.eq_nil_or_concat m with rfl | ⟨m, z, rfl⟩
  case inl =>
    refine ⟨a, [], (b :: l).getLastD a, _, ?_, rfl, ?_, hlast, by simp [Close, hpos]⟩
    · rw [simplify, hm]
      rfl
    · simpa using List.mem_of_getLast? hlast
  case inr =>
    rw [List.concat_eq_append] at hm hml hq
    obtain ⟨s, hs, hsm⟩ := exists_dropStraight_eq a m z
    refine ⟨a, s, z, _, ?_, rfl, ?_, hlast, ?_⟩
    · rw [simplify, hm, ← hs]
      cases m <;> rfl
    · exact (((hsm.append (.refl [z])).trans hml).cons_cons a).subset
    · rw [← List.cons_append, List.getLast?_concat] at hq
      exact Option.some.inj hq ▸ hclose

-- An orthogonal polyline from the start of another one to its end, through points and bends of it.
structure Rectilinear (verticalFirst : Bool) (points route : List (Point Rat)) : Prop where
  length : 2 ≤ route.length
  aligned : route.IsChain (Aligned (2 / 1000000000))
  start : route.head? = points.head?
  stop : ∃ p q, points.getLast? = some p ∧ route.getLast? = some q ∧ Close (1 / 1000000000) q p
  mem : ∀ p ∈ route, p ∈ points ∨ ∃ a b, [a, b] <:+: points ∧ p = corner verticalFirst a b

theorem rectilinear_snap (h : 2 ≤ l.length) : Rectilinear verticalFirst l (snap verticalFirst l) := by
  have htwice : (2 * tolerance : Rat) = 2 / 1000000000 := by rw [tolerance_eq]; norm_num
  have haligned := aligned_simplify (aligned_withBends verticalFirst l)
  obtain ⟨a, m, z, p, heq, ha, hsub, hp, hz⟩ := exists_ends_simplify (h.trans (length_le_withBends verticalFirst l))
  rw [head?_withBends] at ha
  rw [getLast?_withBends] at hp
  rw [snap, if_neg h.not_gt]
  rw [htwice] at haligned
  rw [tolerance_eq] at hz
  rw [heq] at haligned ⊢
  exact {
    length := by simp
    aligned := haligned
    start := ha.symm
    stop := ⟨p, z, hp, List.getLast?_concat .., hz⟩
    mem := fun p hp => mem_withBends (hsub hp) }

-- Its first points drift away, by less than the tolerance from each one to the next.
def drifting : List (Point Rat) :=
  [⟨0, 0⟩, ⟨8e-10, 0⟩, ⟨16e-10, 0⟩, ⟨24e-10, 0⟩, ⟨5, 7⟩]

theorem rectilinear_snap_drifting : Rectilinear true drifting (snap true drifting) :=
  rectilinear_snap (by decide)

example : snap true drifting = [⟨0, 0⟩, ⟨16e-10, 0⟩, ⟨24e-10, 7⟩, ⟨5, 7⟩] := by
  decide +kernel

end LayeredDiagram.Route
