import LayeredDiagram.Proofs.Levels
/-!
Routes in corridors. Between two levels a route goes straight down in one column, or almost straight: where its points
are dropped or cut off, it leaves the column by a few times the tolerance at most.
-/

namespace LayeredDiagram.Route

variable {a b k p q z e : Point Rat} {l : List (Point Rat)} {sign ε δ ε' δ' : Rat} {verticalFirst : Bool}
variable {box first last : Box Rat}

-- The levels between two of them, with the column in which routes pass them.
structure Corridor where
  top : Rat
  bottom : Rat
  column : Rat
  top_lt_bottom : top < bottom

namespace Corridor

variable {c : Corridor}

-- A level at which something may turn outside the corridor.
def Clear (c : Corridor) (p : Point Rat) : Prop :=
  IsLevel p.y ∧ (p.y ≤ c.top ∨ c.bottom ≤ p.y)

-- Two points both above a corridor, both below it, or both near its column.
def Keeps (c : Corridor) (ε δ : Rat) (a b : Point Rat) : Prop :=
  (a.y ≤ c.top ∧ b.y ≤ c.top) ∨ (c.bottom ≤ a.y ∧ c.bottom ≤ b.y) ∨ |a.x - c.column| ≤ ε ∧ |b.x - c.column| ≤ δ

-- Two points at one level.
theorem Clear.keeps (h : c.Clear a) (hy : a.y = b.y) : c.Keeps ε δ a b := by
  cases h.right
  case inl h => exact .inl ⟨h, hy ▸ h⟩
  case inr h => exact .inr (.inl ⟨h, hy ▸ h⟩)

namespace Keeps

theorem mono (h : c.Keeps ε δ a b) (hε : ε ≤ ε') (hδ : δ ≤ δ') : c.Keeps ε' δ' a b := by
  rcases h with h | h | ⟨ha, hb⟩
  · exact .inl h
  · exact .inr (.inl h)
  · exact .inr (.inr ⟨ha.trans hε, hb.trans hδ⟩)

theorem symm (h : c.Keeps ε δ a b) : c.Keeps δ ε b a := by
  rcases h with h | h | h
  · exact .inl h.symm
  · exact .inr (.inl h.symm)
  · exact .inr (.inr h.symm)

theorem of_same (hk : IsLevel k.y) (hp : IsLevel p.y) (hkp : same k p) (h : c.Keeps ε δ p q) :
    c.Keeps (ε + tolerance) δ k q := by
  obtain ⟨hx, hy⟩ := same_iff.mp hkp
  have hy := hk.eq_of_near hp hy
  rcases h with h | h | ⟨hpx, hqx⟩
  · exact .inl (hy ▸ h)
  · exact .inr (.inl (hy ▸ h))
  · exact .inr (.inr ⟨by linarith [abs_sub_le k.x p.x c.column], hqx⟩)

-- The point kept stays where it is, so that however many points are dropped, none is far from it.
theorem of_isStraight (hk : IsLevel k.y) (hp : c.Clear p) (hq : IsLevel q.y) (hs : isStraight k p q)
    (hkp : c.Keeps (ε + 2 * tolerance) (ε + 4 * tolerance) k p) (hpq : c.Keeps (ε + tolerance) ε p q) :
    c.Keeps (ε + 2 * tolerance) (ε + 4 * tolerance) k q := by
  have hpos := tolerance_nonneg
  have hlt := c.top_lt_bottom
  cases isStraight_iff.mp hs
  case inr hy =>
    have hpk := (hk.eq_of_near hp.left hy.left).symm
    have hpq := hp.left.eq_of_near hq hy.right
    cases hp.right
    case inl hp => exact .inl ⟨hpk ▸ hp, hpq ▸ hp⟩
    case inr hp => exact .inr (.inl ⟨hpk ▸ hp, hpq ▸ hp⟩)
  case inl hx =>
    obtain ⟨hx, hx'⟩ := hx
    have hkx := abs_sub_le k.x p.x c.column
    have hqx := abs_sub_le q.x p.x c.column
    have hpx := abs_sub_le p.x k.x c.column
    rw [abs_sub_comm] at hx'
    rw [abs_sub_comm p.x k.x] at hpx
    rcases hkp with ⟨hk, hp⟩ | ⟨hk, hp⟩ | ⟨hk, _⟩
    case inr.inr => exact .inr (.inr ⟨hk, by linarith⟩)
    all_goals
      rcases hpq with ⟨hp', hq⟩ | ⟨hp', hq⟩ | ⟨hp', hq⟩
    case inl.inl => exact .inl ⟨hk, hq⟩
    case inr.inl.inr.inl => exact .inr (.inl ⟨hk, hq⟩)
    case inl.inr.inr => exact .inr (.inr ⟨by linarith, by linarith⟩)
    case inr.inl.inr.inr => exact .inr (.inr ⟨by linarith, by linarith⟩)
    all_goals linarith

-- What is left of a segment behind a point on it.
theorem of_onSegment (h : c.Keeps ε δ a q) (he : OnSegment a q e) (hεδ : ε ≤ δ) : c.Keeps δ δ e q := by
  rcases h with ⟨ha, hq⟩ | ⟨ha, hq⟩ | ⟨ha, hq⟩
  · exact .inl ⟨he.y_le ha hq, hq⟩
  · exact .inr (.inl ⟨he.le_y ha hq, hq⟩)
  · exact .inr (.inr ⟨he.abs_x_sub_le (ha.trans hεδ) hq, hq⟩)

theorem of_cut {m : List (Point Rat)} (h : Cut sign box l z q e m) (he : IsLevel e.y) (hεδ : ε ≤ δ)
    (hl : ∀ p ∈ l ++ [z], IsLevel p.y) (hc : (box.center :: l ++ [z]).IsChain (c.Keeps ε δ)) :
    (e :: m ++ [z]).IsChain (c.Keeps (δ + tolerance) (δ + tolerance)) := by
  have hpos := tolerance_nonneg
  refine h.isChain (fun _ _ hpq => hpq.mono (by linarith) (by linarith)) (fun hq => ?_) (fun r hs hqr => ?_) hc
  · exact (hq.of_onSegment h.crosses.line hεδ).mono (by linarith) (by linarith)
  · have hq := hl q (List.mem_of_mem_head? h.head)
    exact (of_same he hq hs hqr).mono (by linarith) (by linarith)

end Keeps

-- Two points both above a corridor, both below it, or the first one in its column, from where a polyline that goes
-- straight down first gets to the level of the second one.
def Follows (c : Corridor) (a b : Point Rat) : Prop :=
  (a.y ≤ c.top ∧ b.y ≤ c.top) ∨ (c.bottom ≤ a.y ∧ c.bottom ≤ b.y) ∨ a.x = c.column

theorem keeps_withBends (hl : ∀ p ∈ l, c.Clear p) (hc : l.IsChain c.Follows) :
    (withBends true l).IsChain (c.Keeps tolerance tolerance) := by
  have hpos := tolerance_nonneg
  refine isChain_withBends (fun a b hab hn => ?straight) (fun a b d hab hs => ?bent) (List.IsChain.iff_mem.mp hc)
  case straight =>
    obtain ⟨ha, hb, h | h | hx⟩ := hab
    · exact .inl h
    · exact .inr (.inl h)
    · cases bend?_eq_none_iff.mp hn
      case inl hn => exact .inr (.inr ⟨by simpa [hx] using hpos, by rwa [← hx, abs_sub_comm]⟩)
      case inr hn => exact (hl a ha).keeps ((hl a ha).left.eq_of_near (hl b hb).left hn)
  case bent =>
    obtain ⟨_, hb, hab⟩ := hab
    obtain rfl : d = ⟨a.x, b.y⟩ := eq_of_bend?_eq_some hs
    refine ⟨?_, ((hl b hb).keeps (b := ⟨a.x, b.y⟩) rfl).symm⟩
    rcases hab with h | h | hx
    · exact .inl h
    · exact .inr (.inl h)
    · exact .inr (.inr ⟨by simpa [hx] using hpos, by simpa [hx] using hpos⟩)

theorem keeps_simplify (h : ∀ p ∈ a :: l, same p z = false) (hl : ∀ p ∈ a :: l ++ [z], c.Clear p)
    (hc : (a :: l ++ [z]).IsChain (c.Keeps tolerance tolerance)) :
    (simplify (a :: l ++ [z])).IsChain (c.Keeps (tolerance + 2 * tolerance) (tolerance + 4 * tolerance)) := by
  have hpos := tolerance_nonneg
  refine isChain_simplify h hl (S := c.Keeps (tolerance + tolerance) tolerance)
    (fun _ _ hpq => hpq.mono (by linarith) le_rfl) ?same (fun _ _ hpq => hpq.mono (by linarith) (by linarith)) ?straight hc
  case same => exact fun k p q hk hp hkp hpq => .of_same hk.left hp.left hkp hpq
  case straight => exact fun k p q hk hp hq hs hkp hpq => .of_isStraight hk.left hp hq.left hs hkp hpq

end Corridor

namespace Spans

variable (h : Spans sign first last l)
include h

-- Routes run between the edges of the boxes that face each other.
theorem clip_between (ha : (first.center :: l ++ [last.center]).IsChain (Aligned tolerance)) :
    ∀ p ∈ clip (some first) (some last) (simplify (first.center :: l ++ [last.center])),
      Beyond sign first p ∧ Beyond (-sign) last p := by
  have hs := aligned_simplify ha
  obtain ⟨s, hsimp, hsl⟩ := exists_simplify_eq h.not_same
  rw [hsimp] at hs ⊢
  have hspans := h.of_subset hsl.subset
  obtain ⟨q, e, m, r, f, t, hcut, _, hcut', _, hclip, _⟩ := hspans.exists_clip_eq (by rw [tolerance_eq]; norm_num) hs
  rw [hclip]
  refine List.forall_mem_append.mpr ⟨List.forall_mem_cons.mpr ⟨?first, fun p hp => ?between⟩, ?last⟩
  case first => exact ⟨hcut.crosses.beyond h.abs_sign, hcut.crosses.beyond_of_apart h.apart h.abs_sign⟩
  case between =>
    have hp := hcut.subset (List.mem_reverse.mp (hcut'.subset (List.mem_reverse.mp hp)))
    exact ⟨hspans.beyond p hp, hspans.before p hp⟩
  case last =>
    refine List.forall_mem_singleton.mpr ⟨?_, hcut'.crosses.beyond h.abs_neg_sign⟩
    simpa using hcut'.crosses.beyond_of_apart h.reverse.apart h.abs_neg_sign

-- A polyline that keeps to a corridor becomes a route that does so up to a few times the tolerance.
theorem keeps_clip {c : Corridor} (hf : IsLevel (first.y + sign * first.halfHeight))
    (hg : IsLevel (last.y - sign * last.halfHeight)) (hl : ∀ p ∈ first.center :: l ++ [last.center], c.Clear p)
    (ha : (first.center :: l ++ [last.center]).IsChain (Aligned tolerance))
    (hc : (first.center :: l ++ [last.center]).IsChain (c.Keeps tolerance tolerance)) :
    (clip (some first) (some last) (simplify (first.center :: l ++ [last.center]))).IsChain
      (c.Keeps (7 * tolerance) (7 * tolerance)) := by
  have hpos := tolerance_nonneg
  have reverse_eq (a z : Point Rat) (l : List (Point Rat)) : (a :: l ++ [z]).reverse = z :: l.reverse ++ [a] := by simp
  have hs := aligned_simplify ha
  have hk := Corridor.keeps_simplify h.not_same hl hc
  obtain ⟨s, hsimp, hsl⟩ := exists_simplify_eq h.not_same
  rw [hsimp] at hs hk ⊢
  obtain ⟨q, e, m, r, f, t, hcut, _, hcut', _, hclip, _⟩ :=
    (h.of_subset hsl.subset).exists_clip_eq (by rw [tolerance_eq]; norm_num) hs
  have hlevel : ∀ p ∈ s ++ [last.center], IsLevel p.y := fun p hp =>
    (hl p (List.mem_cons_of_mem _ ((hsl.append (.refl _)).subset hp))).left
  have hlevel_e : IsLevel e.y := hcut.crosses.y ▸ hf
  have hlevel_f : IsLevel f.y := by
    rwa [hcut'.crosses.y, neg_mul, ← sub_eq_add_neg]
  have hcut_first := Corridor.Keeps.of_cut hcut hlevel_e (by linarith) hlevel hk
  have hrev := List.isChain_reverse.mpr (hcut_first.imp fun _ _ => Corridor.Keeps.symm)
  rw [reverse_eq] at hrev
  have hlevel' : ∀ p ∈ m.reverse ++ [e], IsLevel p.y := by
    refine List.forall_mem_append.mpr ⟨fun p hp => ?_, List.forall_mem_singleton.mpr hlevel_e⟩
    exact hlevel p (List.mem_append_left _ (hcut.subset (List.mem_reverse.mp hp)))
  have hcut_last := Corridor.Keeps.of_cut hcut' hlevel_f le_rfl hlevel' hrev
  have hfinal := List.isChain_reverse.mpr (hcut_last.imp fun _ _ => Corridor.Keeps.symm)
  rw [reverse_eq] at hfinal
  rw [hclip]
  exact hfinal.imp fun _ _ hpq => hpq.mono (by linarith) (by linarith)

-- What is drawn of a polyline down one column stays in the column.
theorem x_eq_of_mem_clip {t : Rat} (ht : ∀ p ∈ first.center :: l ++ [last.center], p.x = t) :
    ∀ p ∈ clip (some first) (some last) (simplify (first.center :: l ++ [last.center])), p.x = t := by
  have haligned : (first.center :: l ++ [last.center]).IsChain (Aligned tolerance) := by
    rw [List.isChain_iff_forall_rel_of_append_cons_cons]
    intro a b l₁ l₂ he
    rw [Aligned, ht a (by simp [he]), ht b (by simp [he]), sub_self, abs_zero, tolerance_eq]
    exact .inl (by norm_num)
  have hs := aligned_simplify haligned
  obtain ⟨s, hsimp, hsl⟩ := exists_simplify_eq h.not_same
  rw [hsimp] at hs ⊢
  obtain ⟨q, e, m, r, f, m', hcut, _, hcut', _, hclip, _⟩ :=
    (h.of_subset hsl.subset).exists_clip_eq (by rw [tolerance_eq]; norm_num) hs
  have hl : ∀ p ∈ s, p.x = t := fun p hp =>
    ht p (List.mem_append_left _ (List.mem_cons_of_mem _ (hsl.subset hp)))
  have hfirst := ht first.center (by simp)
  have hlast := ht last.center (by simp)
  have hq : q.x = t := by
    rcases List.mem_append.mp (List.mem_of_mem_head? hcut.head) with hq | hq
    · exact hl q hq
    · exact List.mem_singleton.mp hq ▸ hlast
  have he := hcut.crosses.line.x_eq hfirst hq
  have hr : r.x = t := by
    rcases List.mem_append.mp (List.mem_of_mem_head? hcut'.head) with hr | hr
    · exact hl r (hcut.subset (List.mem_reverse.mp hr))
    · exact List.mem_singleton.mp hr ▸ he
  have hf := hcut'.crosses.line.x_eq hlast hr
  rw [hclip]
  refine List.forall_mem_append.mpr ⟨List.forall_mem_cons.mpr ⟨he, fun p hp => ?_⟩, List.forall_mem_singleton.mpr hf⟩
  exact hl p (hcut.subset (List.mem_reverse.mp (hcut'.subset (List.mem_reverse.mp hp))))

-- Between boxes that are almost above each other, a straight line is cut off at both of them.
theorem exists_clip_pair (hx : |first.x - last.x| ≤ tolerance) : ∃ e f,
    clip (some first) (some last) [first.center, last.center] = [e, f] ∧ Crosses sign first last.center e ∧
      Crosses (-sign) last e f := by
  have hc : (first.center :: [] ++ [last.center]).IsChain (Aligned tolerance) :=
    .cons_cons (.inl hx) (.singleton _)
  obtain ⟨q, e, m, r, f, t, hcut, _, hcut', _, hclip, _⟩ :=
    (h.of_subset (List.nil_subset l)).exists_clip_eq (by rw [tolerance_eq]; norm_num) hc
  obtain rfl : m = [] := List.subset_nil.mp hcut.subset
  obtain rfl : t = [] := List.subset_nil.mp hcut'.subset
  obtain rfl : last.center = q := by simpa using hcut.head
  obtain rfl : e = r := by simpa using hcut'.head
  exact ⟨e, f, hclip, hcut.crosses, hcut'.crosses⟩

end Spans

-- A polyline down a column is drawn in one piece, also if it starts a little beside the column.
theorem simplify_withBends_of_near {u t y₀ y₁ y₂ y₃ : Rat} (h : |u - t| ≤ tolerance) (h₁ : y₀ + tolerance < y₁)
    (h₂ : y₁ + tolerance < y₂) (h₃ : y₂ + tolerance < y₃) :
    simplify (withBends true [⟨u, y₀⟩, ⟨t, y₁⟩, ⟨t, y₂⟩, ⟨t, y₃⟩]) = [⟨u, y₀⟩, ⟨t, y₃⟩] := by
  have hpos := tolerance_nonneg
  have hnear : near u t = true := near_iff.mpr h
  have hself (x : Rat) : near x x = true := by simp [near_iff, hpos]
  have hapart : apart u t = false := by simpa [Bool.eq_false_iff, apart_iff] using h
  have hapart' (x : Rat) : apart x x = false := by simp [Bool.eq_false_iff, apart_iff, hpos]
  have hlevel {y z : Rat} (hyz : y + tolerance < z) : near y z = false := by
    rw [Bool.eq_false_iff, Ne, near_iff, abs_sub_comm, abs_of_nonneg (by linarith)]
    intro
    linarith
  simp [withBends, bend?, hapart, hapart', simplify, dropRepeats, same, dropStraight, isStraight, hnear, hself,
    hlevel h₁, hlevel h₂, hlevel h₃]

-- A point on one of the segments of a polyline.
def Passes (points : List (Point Rat)) (p : Point Rat) : Prop :=
  ∃ l₁ a b l₂, points = l₁ ++ a :: b :: l₂ ∧ OnSegment a b p

namespace Passes

theorem le_y {v : Rat} (h : Passes l p) (hl : ∀ q ∈ l, v ≤ q.y) : v ≤ p.y := by
  obtain ⟨l₁, a, b, l₂, rfl, hp⟩ := h
  exact hp.le_y (hl a (by simp)) (hl b (by simp))

theorem y_le {v : Rat} (h : Passes l p) (hl : ∀ q ∈ l, q.y ≤ v) : p.y ≤ v := by
  obtain ⟨l₁, a, b, l₂, rfl, hp⟩ := h
  exact hp.y_le (hl a (by simp)) (hl b (by simp))

theorem reverse (h : Passes l p) : Passes l.reverse p := by
  obtain ⟨l₁, a, b, l₂, hl, hp⟩ := h
  exact ⟨l₂.reverse, b, a, l₁.reverse, by simp [hl], hp.symm⟩

-- A route passes a corridor near its column only.
theorem near_column {c : Corridor} (h : Passes l p) (hc : l.IsChain (c.Keeps ε ε)) (ht : c.top < p.y)
    (hb : p.y < c.bottom) : |p.x - c.column| ≤ ε := by
  obtain ⟨l₁, a, b, l₂, hl, hp⟩ := h
  rcases List.isChain_iff_forall_rel_of_append_cons_cons.mp hc hl with ⟨hat, hbt⟩ | ⟨hab, hbb⟩ | ⟨hax, hbx⟩
  · exact absurd (hp.y_le hat hbt) (not_le.mpr ht)
  · exact absurd (hp.le_y hab hbb) (not_le.mpr hb)
  · exact hp.abs_x_sub_le hax hbx

theorem exists_of_map_shift {dx dy : Rat} (h : Passes (l.map (Point.shift dx dy)) p) :
    ∃ q, p = q.shift dx dy ∧ Passes l q := by
  obtain ⟨l₁, a', b', l₂, hl, t, h0, h1, hx, hy⟩ := h
  obtain ⟨m₁, _, rfl, rfl, hm⟩ := List.map_eq_append_iff.mp hl
  obtain ⟨a, _, rfl, rfl, hm'⟩ := List.map_eq_cons_iff.mp hm
  obtain ⟨b, m, rfl, rfl, rfl⟩ := List.map_eq_cons_iff.mp hm'
  refine ⟨⟨p.x - dx, p.y - dy⟩, ?_, m₁, a, b, m, rfl, t, h0, h1, ?_, ?_⟩
  · simp [Point.shift]
  · rw [hx]
    simp only [Point.shift]
    ring
  · rw [hy]
    simp only [Point.shift]
    ring

theorem map_shift (h : Passes l p) (dx dy : Rat) : Passes (l.map (Point.shift dx dy)) (p.shift dx dy) := by
  obtain ⟨l₁, a, b, l₂, rfl, t, h0, h1, hx, hy⟩ := h
  refine ⟨l₁.map (Point.shift dx dy), a.shift dx dy, b.shift dx dy, l₂.map (Point.shift dx dy), by simp, t, h0, h1,
    ?_, ?_⟩
  · simp only [Point.shift, hx]
    ring
  · simp only [Point.shift, hy]
    ring

end Passes

end LayeredDiagram.Route
