import LayeredDiagram.Proofs.Cells
import LayeredDiagram.Proofs.Corridors
/-!
Routes in cells. Rounding may put the points of a route on rows that it does not have in the plane, but a sideways run
that is a cell away from what is below it keeps a row of its own, and the end on the top of a box, which is rounded
into the box, is moved out again along the column of the run before it.
-/

namespace LayeredDiagram

variable {a b : Cell} {cells : List Cell}

section Runs

variable {R : Cell → Cell → Prop} {P : Cell → Prop} {p : Cell} {j : Join} {heading : Heading}

namespace Cell

-- Two cells in one row or one column.
def Straight (a b : Cell) : Prop :=
  a.x = b.x ∨ a.y = b.y

instance : Decidable (Straight a b) :=
  inferInstanceAs (Decidable (_ ∨ _))

-- A cell of the smallest rectangle around two others.
structure Between (a b p : Cell) : Prop where
  left : min a.x b.x ≤ p.x
  right : p.x ≤ max a.x b.x
  top : min a.y b.y ≤ p.y
  bottom : p.y ≤ max a.y b.y

theorem Straight.symm (h : Straight a b) : Straight b a :=
  h.imp Eq.symm Eq.symm

theorem Between.symm (h : Between a b p) : Between b a p where
  left := min_comm a.x b.x ▸ h.left
  right := max_comm a.x b.x ▸ h.right
  top := min_comm a.y b.y ▸ h.top
  bottom := max_comm a.y b.y ▸ h.bottom

theorem between_left (a b : Cell) : Between a b a :=
  ⟨min_le_left .., le_max_left .., min_le_left .., le_max_left ..⟩

theorem between_right (a b : Cell) : Between a b b :=
  (between_left b a).symm

end Cell

namespace Join

theorem exists_steps_of_mem_follow {n : Nat} (hj : j ∈ follow heading p n) :
    ∃ k : Nat, k ≤ n ∧ j.cell = ⟨p.x + k * heading.dx, p.y + k * heading.dy⟩ := by
  induction n generalizing p
  case zero =>
    obtain rfl := List.mem_singleton.mp hj
    exact ⟨0, le_rfl, by simp⟩
  case succ n hi =>
    rcases List.mem_cons.mp hj with rfl | hj
    · exact ⟨0, Nat.zero_le _, by simp⟩
    · obtain ⟨k, hk, hc⟩ := hi hj
      refine ⟨k + 1, by omega, ?_⟩
      rw [hc, Cell.step]
      push_cast
      congr 1 <;> ring

-- Every cell of a run is on the way.
theorem between_of_mem_run (hab : a.Straight b) (hj : j ∈ run a b) : a.Between b j.cell := by
  unfold run at hj
  split at hj
  case h_2 => simp at hj
  case h_1 heading steps hh hd =>
    obtain ⟨k, hk, hc⟩ : ∃ k : Nat, k ≤ steps + 1 ∧ j.cell = ⟨a.x + k * heading.dx, a.y + k * heading.dy⟩ := by
      rcases List.mem_cons.mp hj with rfl | hj
      · exact ⟨0, by omega, by simp⟩
      · obtain ⟨k, hk, hc⟩ := exists_steps_of_mem_follow hj
        refine ⟨k + 1, by omega, ?_⟩
        rw [hc, Cell.step]
        push_cast
        congr 1 <;> ring
    replace hk : k ≤ a.distance b := hd ▸ hk
    rw [hc]
    unfold Cell.heading? at hh
    unfold Cell.distance at hk
    unfold Cell.Straight at hab
    -- the heading says which of the coordinates differs, and the distance by how much
    constructor <;> grind [Heading.dx, Heading.dy]

theorem forall_visits (hc : cells.IsChain R) (hR : ∀ a b, R a b → ∀ j ∈ run a b, P j.cell) :
    ∀ j ∈ visits cells, P j.cell := by
  induction cells
  case nil => simp [visits]
  case cons a cells hi =>
    cases cells
    case nil => simp [visits]
    case cons b cells =>
      obtain ⟨hab, hc⟩ := List.isChain_cons_cons.mp hc
      rw [visits]
      exact List.forall_mem_append.mpr ⟨hR a b hab, hi hc⟩

end Join

namespace Canvas

theorem exists_bends_cons (a : Cell) (cells : List Cell) : ∃ rest, bends (a :: cells) = a :: rest := by
  induction cells generalizing a
  case nil => exact ⟨[], rfl⟩
  case cons b cells hi =>
    rw [bends]
    split
    case isTrue hab => exact hab ▸ hi b
    case isFalse => exact ⟨_, rfl⟩

theorem isChain_bends (hc : cells.IsChain R) : (bends cells).IsChain R := by
  induction cells
  case nil => simp [bends]
  case cons a cells hi =>
    cases cells
    case nil => simp [bends]
    case cons b cells =>
      obtain ⟨hab, hc⟩ := List.isChain_cons_cons.mp hc
      have hi := hi hc
      rw [bends]
      split
      case isTrue => exact hi
      case isFalse =>
        obtain ⟨rest, hrest⟩ := exists_bends_cons b cells
        rw [hrest] at hi ⊢
        exact .cons_cons hab hi

end Canvas

end Runs

namespace TextArt

open Route CellRect

-- The cell that a point falls into.
def cellAt (p : Point Rat) : Cell :=
  ⟨toCell p.x, toCell p.y⟩

section Ends

variable {r : CellRect}

theorem stepToward_up (hx : b.x = a.x) (hy : b.y < a.y) : stepToward a b = ⟨a.x, a.y - 1⟩ := by
  have hh : a.heading? b = some .up := by simp [Cell.heading?, hx, hy, hy.not_gt]
  simp [stepToward, hh, Cell.step, Heading.dx, Heading.dy, sub_eq_add_neg]

theorem leave_of_not_contains (h : r.contains a = false) : leave (some r) (a :: cells) = a :: cells := by
  cases cells <;> simp [leave, h]

theorem leave_of_contains (h : r.contains a) : leave (some r) (a :: b :: cells) = stepToward a b :: b :: cells := by
  simp [leave, h]

end Ends

section Columns

variable {t w : Point Rat} {box : Bounds Rat} {z : Cell}

-- A run down a column beside a box, seen from where it starts above the bottom of the box to where it ends below the
-- top.
theorem not_contains_of_column (hbeside : ∀ q, OnSegment t w q → box.top < q.y → q.y < box.bottom →
      q.x + 1 ≤ box.left ∨ box.right ≤ q.x) (hx : toCell t.x = toCell w.x) (hy : t.y < w.y) (hzx : z.x = toCell t.x)
    (hzy : toCell t.y ≤ z.y) (hzw : z.y < toCell w.y) : ¬(ofBounds box).contains z := by
  rw [contains_ofBounds_iff]
  rintro ⟨⟨hleft, hright⟩, htop, hbottom⟩
  have hw : box.top < w.y := by
    by_contra hle
    have := toCell_mono (not_lt.mp hle)
    omega
  have htb : t.y < box.bottom := by
    by_contra hle
    have := toCell_mono (not_lt.mp hle)
    omega
  have hbox : box.top < box.bottom := by
    by_contra hle
    have := toCell_mono (not_lt.mp hle)
    omega
  -- somewhere on the run between the top and the bottom of the box
  obtain ⟨y, hty, hyw⟩ := exists_between (max_lt (lt_min hy htb) (lt_min hw hbox))
  obtain ⟨hyt, hytop⟩ := max_lt_iff.mp hty
  obtain ⟨hyw, hyb⟩ := lt_min_iff.mp hyw
  have hpos : 0 < w.y - t.y := sub_pos.mpr hy
  let part := (y - t.y) / (w.y - t.y)
  have hpart : 0 ≤ part := div_nonneg (by linarith) hpos.le
  have hpart' : part ≤ 1 := (div_le_one hpos).mpr (by linarith)
  have hon : OnSegment t w ⟨t.x + (w.x - t.x) * part, y⟩ :=
    ⟨part, hpart, hpart', rfl, by simp only [part]; field_simp; ring⟩
  -- rounds to the same column as the ends
  have hcolumn : toCell (t.x + (w.x - t.x) * part) = z.x := by
    rw [hzx]
    rcases le_total t.x w.x with hle | hle
    · have hlow := toCell_mono (le_add_sub_mul hpart hpart' le_rfl hle)
      have hhigh := toCell_mono (add_sub_mul_le hpart hpart' hle le_rfl)
      omega
    · have hlow := toCell_mono (le_add_sub_mul hpart hpart' hle le_rfl)
      have hhigh := toCell_mono (add_sub_mul_le hpart hpart' le_rfl hle)
      omega
  rw [← hcolumn] at hleft hright
  rcases hbeside _ hon hytop hyb with hle | hle
  · have := toCell_add_le (n := 1) (by exact_mod_cast hle)
    simp only at this
    omega
  · have := toCell_mono hle
    simp only at this
    omega

end Columns

-- A route down from the bottom of one box to the top of another, between and beside all boxes. Where it turns, there is
-- a cell between the route and whatever is below.
structure Descends (boxes : List (Bounds Rat)) (upper lower : Bounds Rat) (a : Point Rat) (m : List (Point Rat))
    (b : Point Rat) : Prop where
  start : a.y = upper.bottom
  stop : b.y = lower.top
  left : lower.left + 1 ≤ b.x
  right : b.x + 1 ≤ lower.right
  height : lower.top + 1 ≤ lower.bottom
  gap : upper.bottom + 1 ≤ lower.top
  below : ∀ p ∈ m, upper.bottom + 1 ≤ p.y
  above : ∀ p ∈ m, p.y + 1 ≤ lower.top
  turns : ∀ p ∈ m, ∀ r ∈ boxes, r.bottom ≤ p.y ∨ p.y + 1 ≤ r.top
  beside : ∀ q, Route.Passes (a :: m ++ [b]) q → ∀ r ∈ boxes, r.top < q.y → q.y < r.bottom →
    q.x + 1 ≤ r.left ∨ r.right ≤ q.x

-- A run between two cells that takes no cell of a box.
structure Free (boxes : List (Bounds Rat)) (a b : Cell) : Prop where
  straight : a.Straight b
  not_contains : ∀ z, a.Between b z → ∀ r ∈ boxes, ¬(ofBounds r).contains z

theorem Free.symm {boxes : List (Bounds Rat)} (h : Free boxes a b) : Free boxes b a :=
  ⟨h.straight.symm, fun z hz => h.not_contains z hz.symm⟩

theorem Free.not_contains_of_mem {boxes : List (Bounds Rat)} (hc : cells.IsChain (Free boxes)) (hl : 2 ≤ cells.length) :
    ∀ z ∈ cells, ∀ r ∈ boxes, ¬(ofBounds r).contains z := by
  induction cells
  case nil => simp at hl
  case cons a cells hi =>
    cases cells
    case nil => simp at hl
    case cons b cells =>
      obtain ⟨hab, hc⟩ := List.isChain_cons_cons.mp hc
      refine List.forall_mem_cons.mpr ⟨hab.not_contains _ (Cell.between_left a b), ?_⟩
      cases cells
      case nil => exact List.forall_mem_singleton.mpr (hab.not_contains _ (Cell.between_right a b))
      case cons => exact hi hc (by simp)

namespace Descends

variable {boxes : List (Bounds Rat)} {upper lower box : Bounds Rat} {a b p q : Point Rat} {m l₁ l₂ : List (Point Rat)}
variable {z : Cell}
variable (h : Descends boxes upper lower a m b)
include h

theorem shift (dx dy : Rat) :
    Descends (boxes.map (Bounds.shift dx dy)) (upper.shift dx dy) (lower.shift dx dy) (a.shift dx dy)
      (m.map (Point.shift dx dy)) (b.shift dx dy) := by
  have hstart := h.start
  have hstop := h.stop
  have hleft := h.left
  have hright := h.right
  have hheight := h.height
  have hgap := h.gap
  constructor
  case below =>
    intro _ hp
    obtain ⟨p, hpm, rfl⟩ := List.mem_map.mp hp
    have := h.below p hpm
    simp only [Bounds.shift, Point.shift]
    linarith
  case above =>
    intro _ hp
    obtain ⟨p, hpm, rfl⟩ := List.mem_map.mp hp
    have := h.above p hpm
    simp only [Bounds.shift, Point.shift]
    linarith
  case turns =>
    intro _ hp _ hr
    obtain ⟨p, hpm, rfl⟩ := List.mem_map.mp hp
    obtain ⟨r, hrm, rfl⟩ := List.mem_map.mp hr
    simp only [Bounds.shift, Point.shift]
    exact (h.turns p hpm r hrm).imp (fun _ => by linarith) fun _ => by linarith
  case beside =>
    intro _ hq _ hr
    obtain ⟨r, hrm, rfl⟩ := List.mem_map.mp hr
    have hroute : a.shift dx dy :: m.map (Point.shift dx dy) ++ [b.shift dx dy] =
        (a :: m ++ [b]).map (Point.shift dx dy) := by simp
    rw [hroute] at hq
    obtain ⟨q, rfl, hpasses⟩ := hq.exists_of_map_shift
    simp only [Bounds.shift, Point.shift]
    intro htop hbottom
    exact (h.beside q hpasses r hrm (by linarith) (by linarith)).imp (fun _ => by linarith) fun _ => by linarith
  all_goals
    simp only [Bounds.shift, Point.shift]
    linarith

-- Where a route turns, it has a row of its own.
theorem not_contains_of_turn (hp : p ∈ m) (hz : z.y = toCell p.y) (hbox : box ∈ boxes) :
    ¬(ofBounds box).contains z := by
  rw [contains_ofBounds_iff]
  rintro ⟨_, htop, hbottom⟩
  rcases h.turns p hp box hbox with hle | hle
  · have := toCell_mono hle
    omega
  · have := toCell_add_le (n := 1) (by exact_mod_cast hle)
    omega

-- Down to a turn, a run takes no cell of a box: above the turn by its column, at the turn by its row.
theorem not_contains_of_run (hbeside : ∀ r, OnSegment p q r → box.top < r.y → r.y < box.bottom →
      r.x + 1 ≤ box.left ∨ box.right ≤ r.x) (hx : toCell p.x = toCell q.x) (hlt : p.y < q.y) (hq : q ∈ m)
    (hzx : z.x = toCell p.x) (hz : toCell p.y ≤ z.y ∧ z.y ≤ toCell q.y) (hbox : box ∈ boxes) :
    ¬(ofBounds box).contains z := by
  rcases hz.right.eq_or_lt with heq | hzq
  · exact h.not_contains_of_turn hq heq hbox
  · exact not_contains_of_column hbeside hx hlt hzx hz.left hzq

theorem free_of_turn (hpq : a :: m ++ [b] = l₁ ++ p :: q :: l₂) (hp : p = a ∨ p ∈ m) (hq : q ∈ m)
    (hs : (cellAt p).Straight (cellAt q)) : Free boxes (cellAt p) (cellAt q) := by
  refine ⟨hs, fun z hz box hbox hcontains => ?_⟩
  obtain ⟨hleft, hright, htop, hbottom⟩ := hz
  simp only [cellAt] at hleft hright htop hbottom
  have hon {y : Point Rat} (hy : OnSegment p q y) := h.beside y ⟨l₁, p, q, l₂, hpq, hy⟩ box hbox
  rcases hs with hx | hy
  case inr =>
    simp only [cellAt] at hy
    exact h.not_contains_of_turn hq (by omega) hbox hcontains
  case inl =>
    simp only [cellAt] at hx
    -- the lower end of the run is a turn, as nothing is above the start
    rcases lt_trichotomy p.y q.y with hlt | heq | hlt
    · have := toCell_mono hlt.le
      exact h.not_contains_of_run (fun _ => hon) hx hlt hq (by omega) (by omega) hbox hcontains
    · rw [heq] at htop hbottom
      exact h.not_contains_of_turn hq (by omega) hbox hcontains
    · have hpm : p ∈ m := by
        refine hp.resolve_left fun hpa => ?_
        have := h.below q hq
        rw [hpa, h.start] at hlt
        linarith
      have := toCell_mono hlt.le
      exact h.not_contains_of_run (fun _ hy => hon hy.symm) hx.symm hlt hpm (by omega) (by omega) hbox hcontains

theorem add_one_le_stop (hp : p = a ∨ p ∈ m) : p.y + 1 ≤ b.y := by
  rw [h.stop]
  rcases hp with rfl | hp
  · exact h.start ▸ h.gap
  · exact h.above p hp

-- The end on the top of the lower box is moved up, along the column in which the route arrives.
theorem column_eq_of_last (hp : p = a ∨ p ∈ m) (hs : (cellAt p).Straight (cellAt b)) :
    toCell p.x = toCell b.x ∧ toCell p.y + 1 ≤ toCell b.y := by
  have hle := toCell_add_le (n := 1) (by exact_mod_cast h.add_one_le_stop hp)
  refine ⟨hs.resolve_right fun hy => ?_, hle⟩
  simp only [cellAt] at hy
  omega

theorem free_of_last (hpb : a :: m ++ [b] = l₁ ++ p :: b :: l₂) (hp : p = a ∨ p ∈ m)
    (hs : (cellAt p).Straight (cellAt b)) : Free boxes (cellAt p) ⟨toCell b.x, toCell b.y - 1⟩ := by
  obtain ⟨hx, hy⟩ := h.column_eq_of_last hp hs
  refine ⟨.inl hx, fun z hz box hbox hcontains => ?_⟩
  obtain ⟨hleft, hright, htop, hbottom⟩ := hz
  simp only [cellAt] at hleft hright htop hbottom
  have hon {y : Point Rat} (hy : OnSegment p b y) := h.beside y ⟨l₁, p, b, l₂, hpb, hy⟩ box hbox
  have hlt : p.y < b.y := by linarith [h.add_one_le_stop hp]
  exact not_contains_of_column (fun _ => hon) hx hlt (by omega) (by omega) (by omega) hcontains

-- The first cell is in the row below the upper box.
theorem not_contains_start : (ofBounds upper).contains (cellAt a) = false := by
  rw [Bool.eq_false_iff, Ne, contains_ofBounds_iff]
  rintro ⟨_, _, hbottom⟩
  simp only [cellAt, h.start] at hbottom
  omega

-- The last one is in the top row of the lower box.
theorem contains_stop : (ofBounds lower).contains (cellAt b) := by
  have hleft := toCell_mono h.left
  have hright := toCell_add_le (n := 1) (by exact_mod_cast h.right)
  have hheight := toCell_add_le (n := 1) (by exact_mod_cast h.height)
  have hshift := toCell_add_intCast lower.left 1
  rw [contains_ofBounds_iff]
  simp only [cellAt, h.stop]
  push_cast at hshift
  omega

section Cells

variable (hs : ((a :: m ++ [b]).map cellAt).IsChain Cell.Straight)
include hs

-- The cells of a route, its last one moved off the lower box.
theorem free_cells : ((a :: m).map cellAt ++ [(⟨toCell b.x, toCell b.y - 1⟩ : Cell)]).IsChain (Free boxes) := by
  rw [List.isChain_map, List.isChain_iff_forall_rel_of_append_cons_cons] at hs
  refine List.isChain_append.mpr ⟨?_, .singleton _, fun c hc d hd => ?_⟩
  · rw [List.isChain_map, List.isChain_iff_forall_rel_of_append_cons_cons]
    intro p q l₁ l₂ hpq
    have hpqb : a :: m ++ [b] = l₁ ++ p :: q :: (l₂ ++ [b]) := by rw [hpq]; simp
    refine h.free_of_turn hpqb (List.mem_cons.mp (hpq ▸ by simp)) ?_ (hs hpqb)
    cases l₁
    case nil => simp [(List.cons.inj hpq).right]
    case cons => simp [(List.cons.inj hpq).right]
  · obtain rfl : _ = d := by simpa using hd
    obtain ⟨l, p, hl⟩ : ∃ l p, a :: m = l ++ [p] := ⟨_, _, (List.dropLast_append_getLast (by simp)).symm⟩
    obtain rfl : cellAt p = c := by simpa [hl] using hc
    have hpb : a :: m ++ [b] = l ++ p :: b :: [] := by rw [hl]; simp
    exact h.free_of_last hpb (List.mem_cons.mp (hl ▸ by simp)) (hs hpb)

theorem leave_reverse : leave (some (ofBounds lower)) ((a :: m ++ [b]).map cellAt).reverse =
    ((a :: m).map cellAt ++ [(⟨toCell b.x, toCell b.y - 1⟩ : Cell)]).reverse := by
  obtain ⟨l, p, hl⟩ : ∃ l p, a :: m = l ++ [p] := ⟨_, _, (List.dropLast_append_getLast (by simp)).symm⟩
  have hpb : a :: m ++ [b] = l ++ p :: b :: [] := by rw [hl]; simp
  rw [List.isChain_map, List.isChain_iff_forall_rel_of_append_cons_cons] at hs
  obtain ⟨hx, hy⟩ := h.column_eq_of_last (List.mem_cons.mp (hl ▸ by simp)) (hs hpb)
  have hstep : stepToward (cellAt b) (cellAt p) = ⟨toCell b.x, toCell b.y - 1⟩ :=
    stepToward_up hx (by simp only [cellAt]; omega)
  rw [hl]
  simp only [List.map_append, List.map_cons, List.map_nil, List.reverse_append, List.reverse_cons, List.reverse_nil,
    List.nil_append, List.singleton_append]
  rw [leave_of_contains h.contains_stop, hstep]

theorem edgeCells_down : edgeCells (some (ofBounds upper)) (some (ofBounds lower)) (a :: m ++ [b]) =
    (a :: m).map cellAt ++ [(⟨toCell b.x, toCell b.y - 1⟩ : Cell)] := by
  have hleave : leave (some (ofBounds upper)) ((a :: m ++ [b]).map cellAt) = (a :: m ++ [b]).map cellAt :=
    leave_of_not_contains h.not_contains_start
  change (leave _ (leave _ ((a :: m ++ [b]).map cellAt)).reverse).reverse = _
  rw [hleave, h.leave_reverse hs, List.reverse_reverse]

theorem edgeCells_up : edgeCells (some (ofBounds lower)) (some (ofBounds upper)) (a :: m ++ [b]).reverse =
    ((a :: m).map cellAt ++ [(⟨toCell b.x, toCell b.y - 1⟩ : Cell)]).reverse := by
  change (leave _ (leave _ ((a :: m ++ [b]).reverse.map cellAt)).reverse).reverse = _
  rw [List.map_reverse, h.leave_reverse hs, List.reverse_reverse]
  exact congrArg List.reverse (leave_of_not_contains h.not_contains_start)

end Cells

end Descends

end TextArt

end LayeredDiagram
