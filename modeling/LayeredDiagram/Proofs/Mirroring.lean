import LayeredDiagram.Proofs.Polylines
/-!
Polylines that are made orthogonal from their other end. Points on straight stretches are found by comparing each
point with the last one kept, from the first point to the last. Where the points of a polyline are all different and
their coordinates are equal or well apart, the point before it serves as well as the last one kept, and then no end
of the polyline is distinguished.
-/

namespace LayeredDiagram.Route

variable {a b c k p q z : Point Rat} {l : List (Point Rat)} {u v : Rat}

theorem near_comm (u v : Rat) : near u v = near v u := by
  rw [Bool.eq_iff_iff, near_iff, near_iff, abs_sub_comm]

theorem isStraight_comm (a b c : Point Rat) : isStraight c b a = isStraight a b c := by
  rw [isStraight, isStraight, near_comm c.x b.x, near_comm b.x a.x, near_comm c.y b.y, near_comm b.y a.y,
    Bool.and_comm, Bool.and_comm (near b.y c.y)]

-- Points that differ and have no coordinates that only count as equal.
structure Distinct (a b : Point Rat) : Prop where
  x : near a.x b.x ↔ a.x = b.x
  y : near a.y b.y ↔ a.y = b.y
  ne : a.x = b.x → a.y ≠ b.y

namespace Distinct

theorem symm (h : Distinct a b) : Distinct b a where
  x := by rw [near_comm, h.x, eq_comm]
  y := by rw [near_comm, h.y, eq_comm]
  ne hx hy := h.ne hx.symm hy.symm

theorem not_same (h : Distinct a b) : same a b = false := by
  rw [Bool.eq_false_iff, same, Ne, Bool.and_eq_true, h.x, h.y]
  exact fun hs => h.ne hs.left hs.right

theorem isStraight_iff (hab : Distinct a b) (hbc : Distinct b c) :
    isStraight a b c ↔ (a.x = b.x ∧ b.x = c.x) ∨ (a.y = b.y ∧ b.y = c.y) := by
  simp [isStraight, hab.x, hab.y, hbc.x, hbc.y]

-- On one straight stretch the points before a point are alike for what comes after it: two different points
-- have only one stretch through both.
theorem isStraight_congr (hka : Distinct k a) (hap : Distinct a p) (hkp : Distinct k p) (hpq : Distinct p q)
    (h : isStraight k a p) : isStraight a p q = isStraight k p q := by
  rw [Bool.eq_iff_iff, hap.isStraight_iff hpq, hkp.isStraight_iff hpq]
  rcases (hka.isStraight_iff hap).mp h with ⟨hx, hx'⟩ | ⟨hy, hy'⟩
  · have := hap.ne hx'
    have := hkp.ne (hx.trans hx')
    grind
  · have hax : a.x ≠ p.x := fun hx => hap.ne hx hy'
    have hkx : k.x ≠ p.x := fun hx => hkp.ne hx (hy.trans hy')
    grind

end Distinct

section Corners

-- The points of a polyline, without its ends, at which it does not go straight on.
def corners : List (Point Rat) → List (Point Rat)
  | a :: b :: c :: rest => (if isStraight a b c then [] else [b]) ++ corners (b :: c :: rest)
  | _ => []

theorem corners_concat (l : List (Point Rat)) (a b c : Point Rat) : corners (l ++ [a] ++ [b] ++ [c]) =
    corners (l ++ [a] ++ [b]) ++ (if isStraight a b c then [] else [b]) := by
  induction l
  case nil => simp [corners]
  case cons p l hi =>
    rcases l with _ | ⟨q, l⟩
    · simp [corners]
    · rcases l with _ | ⟨r, l⟩
      · simp [corners]
      · simpa [corners] using hi

theorem corners_reverse (l : List (Point Rat)) : corners l.reverse = (corners l).reverse := by
  induction l
  case nil => rfl
  case cons a l hi =>
    rcases l with _ | ⟨b, _ | ⟨c, l⟩⟩
    · rfl
    · rfl
    · simp only [List.reverse_cons] at hi ⊢
      rw [corners_concat, hi, isStraight_comm, corners]
      split <;> simp

-- The point before each one, `a` to begin with, is the last one kept or on a straight stretch behind it.
theorem dropStraight_eq (h : k = a ∨ Distinct k a ∧ isStraight k a p) (hap : Distinct a p)
    (hk : ∀ q ∈ p :: l, Distinct k q) (hl : (p :: l).Pairwise Distinct) :
    dropStraight k (p :: l) = k :: corners (a :: p :: l) ++ [l.getLastD p] := by
  induction l generalizing k a p
  case nil => rfl
  case cons q l hi =>
    obtain ⟨hp, hl⟩ := List.pairwise_cons.mp hl
    have hkp := hk p List.mem_cons_self
    have hpq := hp q List.mem_cons_self
    have hsame : isStraight a p q = isStraight k p q := by
      rcases h with rfl | ⟨hka, hs⟩
      · rfl
      · exact hka.isStraight_congr hap hkp hpq hs
    rw [dropStraight, corners, hsame, List.getLastD_cons]
    split
    case isTrue hs => exact hi (.inr ⟨hkp, hs⟩) hpq (fun r hr => hk r (List.mem_cons_of_mem _ hr)) hl
    case isFalse => rw [hi (.inl rfl) hpq hp hl]; rfl

theorem dropRepeats_eq_self (h : (k :: l).Pairwise Distinct) : dropRepeats k l = k :: l := by
  induction l generalizing k
  case nil => rfl
  case cons p l hi =>
    obtain ⟨hk, hl⟩ := List.pairwise_cons.mp h
    rw [dropRepeats, (hk p List.mem_cons_self).not_same, hi hl]
    rfl

theorem simplify_eq (h : (a :: l ++ [z]).Pairwise Distinct) :
    simplify (a :: l ++ [z]) = a :: corners (a :: l ++ [z]) ++ [z] := by
  obtain ⟨p, m, hpm⟩ := List.exists_cons_of_ne_nil (List.append_ne_nil_of_right_ne_nil l (List.cons_ne_nil z []))
  have hz : m.getLastD p = z := by
    rw [← List.getLastD_cons (a := z), ← hpm, List.getLastD_concat]
  rw [List.cons_append, hpm] at h ⊢
  obtain ⟨ha, hm⟩ := List.pairwise_cons.mp h
  rw [simplify, dropRepeats_eq_self h, ← hz]
  exact dropStraight_eq (.inl rfl) (ha p List.mem_cons_self) ha hm

-- Of a polyline whose points are all different the same points stay in either direction.
theorem simplify_reverse (h : l.Pairwise Distinct) : simplify l.reverse = (simplify l).reverse := by
  rcases l with _ | ⟨a, l⟩
  · rfl
  · rcases List.eq_nil_or_concat l with rfl | ⟨m, z, rfl⟩
    · rfl
    · rw [List.concat_eq_append] at h ⊢
      have hr : (z :: m.reverse ++ [a]).Pairwise Distinct := by
        have := List.pairwise_reverse.mpr (h.imp Distinct.symm)
        rwa [List.reverse_cons, List.reverse_append] at this
      have heq : (a :: (m ++ [z])).reverse = z :: m.reverse ++ [a] := by simp
      rw [heq, simplify_eq hr, ← heq, corners_reverse, ← List.cons_append, simplify_eq h]
      simp

end Corners

section Falling

-- Well below another point, or as high and well beside it.
def Follows (a b : Point Rat) : Prop :=
  tolerance < b.y - a.y ∨ a.y = b.y ∧ tolerance < |a.x - b.x|

theorem near_iff_eq (h : u = v ∨ tolerance < |u - v|) : near u v ↔ u = v := by
  rw [near_iff]
  constructor
  case mp => exact fun hn => h.resolve_right (not_lt.mpr hn)
  case mpr =>
    rintro rfl
    rw [sub_self, abs_zero, tolerance_eq]
    norm_num

theorem Follows.distinct (h : Follows a b) (hx : a.x = b.x ∨ tolerance < |a.x - b.x|) : Distinct a b := by
  have ht : (0 : Rat) < tolerance := by
    rw [tolerance_eq]
    norm_num
  rcases h with hy | ⟨hy, hb⟩
  · have hlt : tolerance < |a.y - b.y| := by
      rw [abs_sub_comm]
      exact hy.trans_le (le_abs_self _)
    exact ⟨near_iff_eq hx, near_iff_eq (.inr hlt), fun _ => by linarith⟩
  · refine ⟨near_iff_eq hx, near_iff_eq (.inl hy), fun heq => ?_⟩
    rw [heq, sub_self, abs_zero] at hb
    exact absurd hb ht.not_gt

theorem exists_x_eq_of_mem_withBends (h : p ∈ withBends true l) : ∃ q ∈ l, p.x = q.x := by
  rcases mem_withBends h with hp | ⟨a, b, hab, rfl⟩
  · exact ⟨p, hp, rfl⟩
  · exact ⟨a, hab.subset List.mem_cons_self, rfl⟩

-- A bend is beside the next point of a polyline that leads down, and above all points behind that.
theorem follows_withBends (h : l.Pairwise fun a b => tolerance < b.y - a.y) : (withBends true l).Pairwise Follows := by
  induction l
  case nil => exact .nil
  case cons a l hi =>
    rcases l with _ | ⟨b, l⟩
    · exact List.pairwise_singleton _ _
    · obtain ⟨ha, hl⟩ := List.pairwise_cons.mp h
      obtain ⟨m, hm, hy⟩ := exists_withBends_eq l b
      have hi := hi hl
      rw [withBends]
      rw [hm] at hi ⊢
      have hab : ∀ p ∈ b :: m, Follows a p := by
        intro p hp
        rcases List.mem_cons.mp hp with rfl | hp
        · exact .inl (ha p List.mem_cons_self)
        · obtain ⟨q, hq, hpq⟩ := hy p hp
          exact .inl (hpq ▸ ha q (List.mem_cons_of_mem _ hq))
      cases hc : bend? true a b
      case none => exact List.pairwise_cons.mpr ⟨hab, hi⟩
      case some c =>
        have hapart : tolerance < |a.x - b.x| := by
          by_contra hn
          have hnone : bend? true a b = none := bend?_eq_none_iff.mpr (.inl (not_lt.mp hn))
          cases hc.symm.trans hnone
        obtain rfl : c = ⟨a.x, b.y⟩ := eq_of_bend?_eq_some hc
        have hac : Follows a ⟨a.x, b.y⟩ := .inl (ha b List.mem_cons_self)
        have hcb : ∀ p ∈ b :: m, Follows ⟨a.x, b.y⟩ p := by
          intro p hp
          rcases List.mem_cons.mp hp with rfl | hp
          · exact .inr ⟨rfl, hapart⟩
          · obtain ⟨q, hq, hpq⟩ := hy p hp
            exact .inl (hpq ▸ (List.pairwise_cons.mp hl).left q hq)
        exact List.pairwise_cons.mpr ⟨List.forall_mem_cons.mpr ⟨hac, hab⟩, List.pairwise_cons.mpr ⟨hcb, hi⟩⟩

-- Down a polyline and straight down first is the way back up and straight across first.
theorem snap_reverse (hy : l.IsChain fun a b => tolerance < b.y - a.y)
    (hx : l.Pairwise fun a b => a.x = b.x ∨ tolerance < |a.x - b.x|) :
    snap false l.reverse = (snap true l).reverse := by
  have : IsTrans (Point Rat) fun a b => tolerance < b.y - a.y := ⟨fun a b c hab hbc => by
    rw [tolerance_eq] at hab hbc ⊢
    linarith⟩
  have hfollows := follows_withBends (List.isChain_iff_pairwise.mp hy)
  have : Std.Symm fun (a b : Point Rat) => a.x = b.x ∨ tolerance < |a.x - b.x| :=
    ⟨fun a b h => by rwa [eq_comm, abs_sub_comm]⟩
  have hall := hx.forall_of_forall fun _ _ => .inl rfl
  have hdistinct : (withBends true l).Pairwise Distinct := by
    refine hfollows.imp_of_mem fun ha hb h => h.distinct ?_
    obtain ⟨q, hq, haq⟩ := exists_x_eq_of_mem_withBends ha
    obtain ⟨r, hr, hbr⟩ := exists_x_eq_of_mem_withBends hb
    exact haq ▸ hbr ▸ hall hq hr
  have hbends : withBends false l.reverse = (withBends true l).reverse := @withBends_reverse true l
  rw [snap, snap, List.length_reverse]
  split
  case isTrue => rfl
  case isFalse => rw [hbends, simplify_reverse hdistinct]

-- A polyline with points on its straight stretches and two slanted segments.
def twoSlants : List (Point Rat) :=
  [⟨0, 0⟩, ⟨0, 2⟩, ⟨0, 5⟩, ⟨3, 7⟩, ⟨3, 9⟩, ⟨1, 12⟩]

theorem snap_reverse_twoSlants : snap false twoSlants.reverse = (snap true twoSlants).reverse :=
  snap_reverse (by decide +kernel) (by decide +kernel)

example : snap true twoSlants = [⟨0, 0⟩, ⟨0, 7⟩, ⟨3, 7⟩, ⟨3, 12⟩, ⟨1, 12⟩] := by
  decide +kernel

end Falling

end LayeredDiagram.Route
