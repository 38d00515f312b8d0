import LayeredDiagram.Canvas.Box
import LayeredDiagram.Canvas.Line
import Mathlib.Algebra.BigOperators.Group.List.Basic
import Mathlib.Algebra.Ring.Nat
import Mathlib.Tactic.Common
/-!
Wide characters on a canvas. A canvas is whole if the cells after wide characters, and no others, are empty; the rows
of a whole canvas are as wide as the canvas. Connectors leave a canvas whole wherever they are drawn. Texts, frames,
boxes and markers do so exactly if they cover either both cells of a wide character or none of them, and if the border
of the canvas does not cut a wide character of a text in two.
-/

namespace LayeredDiagram

namespace Text

theorem displayWidth_append (s t : String) : displayWidth (s ++ t) = displayWidth s + displayWidth t := by
  have foldr (l : List Char) (n : Nat) :
      l.foldr (fun c total => columns c + total) n = l.foldr (fun c total => columns c + total) 0 + n := by
    induction l
    case nil => simp
    case cons c l hi => rw [List.foldr_cons, List.foldr_cons, hi, Nat.add_assoc]
  rw [displayWidth, String.toList_append, List.foldr_append, foldr]
  rfl

theorem displayWidth_join (l : List String) : displayWidth (String.join l) = (l.map displayWidth).sum := by
  induction l
  case nil => rfl
  case cons s l hi =>
    have hjoin : String.join (s :: l) = s ++ String.join l := by
      simp
    rw [hjoin, displayWidth_append, hi, List.map_cons, List.sum_cons]

@[simp]
theorem displayWidth_singleton (c : Char) : displayWidth (String.singleton c) = columns c := by
  simp [displayWidth]

end Text

-- All glyphs take one column.
@[simp]
theorem Charset.columns_char (charset : Charset) (g : Glyph) : Text.columns (charset.char g) = 1 := by
  cases charset <;> cases g
  case unicode.arrow h => cases h <;> decide
  case unicode.openArrow h => cases h <;> decide
  case ascii.arrow h => cases h <;> decide
  case ascii.openArrow h => cases h <;> decide
  all_goals decide

-- The cell to the right.
def Cell.next (p : Cell) : Cell :=
  ⟨p.x + 1, p.y⟩

theorem Cell.next_ne (p : Cell) : p.next ≠ p := by
  intro h
  have := congrArg Point.x h
  simp only [next] at this
  omega

theorem Cell.next_inj {p q : Cell} : p.next = q.next ↔ p = q := by
  constructor
  case mp =>
    intro h
    obtain ⟨hx, hy⟩ := Point.mk.inj h
    cases p
    cases q
    simp_all
  case mpr => exact congrArg next

namespace Canvas

variable {c c' : Canvas} {p q : Cell} {text reason source : String}

-- The columns that the content of a cell takes: two for a wide character, none for the cell after it.
def columnsAt (c : Canvas) (p : Cell) : Nat :=
  Text.displayWidth (c.get p)

-- The empty cells are those after wide characters.
structure Whole (c : Canvas) : Prop where
  le_two : ∀ p, c.columnsAt p ≤ 2
  wide_iff : ∀ p, c.columnsAt p = 2 ↔ c.columnsAt p.next = 0

theorem columnsAt_of_not_contains (h : ¬c.contains p) : c.columnsAt p = 1 := by
  rw [contains_iff] at h
  rw [columnsAt, get, dif_neg h]
  rfl

theorem contains_of_columnsAt_ne_one (h : c.columnsAt p ≠ 1) : c.contains p :=
  not_not.mp fun hn => h (columnsAt_of_not_contains hn)

theorem mem_between {start stop k : Int} : k ∈ between start stop ↔ start ≤ k ∧ k < stop := by
  simp only [between, List.mem_map, List.mem_range]
  constructor
  · rintro ⟨n, hn, rfl⟩
    omega
  · intro ⟨h, h'⟩
    exact ⟨(k - start).toNat, by omega, by omega⟩

theorem get_blank (width height : Nat) (charset : Charset) (recording : Bool) (p : Cell) :
    (blank width height charset recording).get p = " " := by
  unfold get
  split
  case isTrue => simp [blank]
  case isFalse => rfl

theorem whole_blank (width height : Nat) (charset : Charset) (recording : Bool) :
    (blank width height charset recording).Whole := by
  have hone (p : Cell) : (blank width height charset recording).columnsAt p = 1 := by
    rw [columnsAt, get_blank]
    rfl
  constructor
  case le_two => simp [hone]
  case wide_iff => simp [hone]

section Rows

-- By induction on the columns: what is to the left of a column takes as many columns, and one more if it ends with
-- the first cell of a wide character.
theorem Whole.sum_take (h : c.Whole) {row : List String} {y : Int}
    (hrow : ∀ (x : Nat) content, row[x]? = some content → c.columnsAt ⟨x, y⟩ = Text.displayWidth content) {k : Nat}
    (hk : k ≤ row.length) :
    ((row.take k).map Text.displayWidth).sum = k + if c.columnsAt ⟨(k : Int) - 1, y⟩ = 2 then 1 else 0 := by
  induction k
  case zero =>
    have hleft : c.columnsAt ⟨-1, y⟩ = 1 := columnsAt_of_not_contains (by simp [contains])
    simp [hleft]
  case succ k hi =>
    have hcontent := List.getElem?_eq_getElem (l := row) (i := k) hk
    have hwidth := hrow k _ hcontent
    have hle := h.le_two ⟨k, y⟩
    have hprev := h.wide_iff ⟨(k : Int) - 1, y⟩
    simp only [Cell.next, sub_add_cancel] at hprev
    have hindex : ((k + 1 : Nat) : Int) - 1 = k := by omega
    rw [List.take_add_one, hcontent, List.map_append, List.sum_append, hi (by omega), hindex]
    simp only [Option.toList_some, List.map_cons, List.map_nil, List.sum_cons, List.sum_nil, ← hwidth]
    split <;> split <;> omega

-- No row of a whole canvas ends with the first cell of a wide character.
theorem Whole.displayWidth_row (h : c.Whole) {row : String} (hrow : row ∈ c.rows) :
    Text.displayWidth row = c.width := by
  obtain ⟨cells, hcells, rfl⟩ := List.mem_map.mp hrow
  obtain ⟨y, hy, hycells⟩ := List.getElem_of_mem hcells
  have hy : y < c.height := by simpa using hy
  have hget (x : Nat) (content : String) (hx : cells.toList[x]? = some content) :
      c.columnsAt ⟨x, y⟩ = Text.displayWidth content := by
    obtain ⟨hlt, hcontent⟩ := List.getElem?_eq_some_iff.mp hx
    have hlt : x < c.width := by simpa using hlt
    have hcontent : c.get ⟨x, y⟩ = content := by
      rw [get, dif_pos ⟨by simp, by simpa using hlt, by simp, by simpa using hy⟩]
      simp only [Int.toNat_natCast]
      rw [← hcontent]
      simp only [← hycells, Vector.getElem_toList]
    rw [columnsAt, hcontent]
  have hlast : c.columnsAt ⟨(c.width : Int) - 1, y⟩ ≠ 2 := by
    intro hwide
    have hright : c.columnsAt ⟨c.width, y⟩ = 1 := columnsAt_of_not_contains (by simp [contains])
    have := (h.wide_iff ⟨(c.width : Int) - 1, y⟩).mp hwide
    simp only [Cell.next, sub_add_cancel] at this
    omega
  have hlength : cells.toList.length = c.width := by simp
  have hsum := h.sum_take hget (Nat.le_refl _)
  rw [List.take_length, hlength, if_neg hlast] at hsum
  rw [Text.displayWidth_join, hsum, Nat.add_zero]

end Rows

section Writes

def size (c : Canvas) : Nat × Nat :=
  (c.width, c.height)

theorem contains_of_size (h : c'.size = c.size) : c'.contains p = c.contains p := by
  obtain ⟨hw, hh⟩ := Prod.mk.inj h
  simp [contains, hw, hh]

@[simp]
theorem size_set : (c.set p text reason source).size = c.size :=
  Prod.ext (width_set ..) (height_set ..)

theorem contains_set : (c.set p text reason source).contains q = c.contains q :=
  contains_of_size size_set

theorem columnsAt_set : (c.set p text reason source).columnsAt q =
    if q = p ∧ c.contains p then Text.displayWidth text else c.columnsAt q := by
  rw [columnsAt, get_set]
  split <;> rfl

theorem columnsAt_setGlyph (g : Glyph) : (c.setGlyph p g reason source).columnsAt q =
    if q = p ∧ c.contains p then 1 else c.columnsAt q := by
  rw [setGlyph, columnsAt_set, Charset.text, Text.displayWidth_singleton, Charset.columns_char]

-- A cell to which lines can be added takes one column.
theorem columnsAt_of_directions? {d : Directions} (h : c.directions? p = some d) : c.columnsAt p = 1 := by
  obtain ⟨g, hg, _⟩ := Option.map_eq_some_iff.mp h
  have htext : c.charset.text g = c.get p := by simpa using List.find?_some hg
  rw [columnsAt, ← htext, Charset.text, Text.displayWidth_singleton, Charset.columns_char]

-- A line goes to blank cells and to cells with lines.
theorem connect_cases (c : Canvas) (p : Cell) (d : Directions) (dashed : Bool) : c.connect p d dashed = c ∨
    c.columnsAt p = 1 ∧ ∃ g reason source, c.connect p d dashed = c.setGlyph p g reason source := by
  rw [connect, connect?]
  split
  case h_1 old hold =>
    cases Glyph.ofDirections? (d.union old)
    case none => exact .inl rfl
    case some g => exact .inr ⟨columnsAt_of_directions? hold, _, _, _, rfl⟩
  case h_2 =>
    split
    case isTrue hblank =>
      cases Glyph.ofDirections? d
      case none => exact .inl rfl
      case some g => exact .inr ⟨by rw [columnsAt, hblank]; rfl, _, _, _, rfl⟩
    case isFalse => exact .inl rfl

-- No width changes.
theorem columnsAt_connect (d : Directions) (dashed : Bool) : (c.connect p d dashed).columnsAt q = c.columnsAt q := by
  rcases c.connect_cases p d dashed with h | ⟨hone, g, reason, source, h⟩
  · rw [h]
  · rw [h, columnsAt_setGlyph]
    split
    case isTrue hq => rw [hq.left, hone]
    case isFalse => rfl

theorem size_connect (d : Directions) (dashed : Bool) : (c.connect p d dashed).size = c.size := by
  rcases c.connect_cases p d dashed with h | ⟨_, g, reason, source, h⟩
  · rw [h]
  · rw [h, setGlyph, size_set]

end Writes

section Texts

-- The columns of what a text from a cell on writes to some cell.
def shownAt : Cell → List Char → Cell → Option Nat
  | _, [], _ => none
  | p, ch :: rest, q =>
    if q = p then some (Text.columns ch)
    else if Text.isWide ch then if q = p.next then some 0 else shownAt ⟨p.x + 2, p.y⟩ rest q
    else shownAt ⟨p.x + 1, p.y⟩ rest q

variable {chars : List Char} {n : Nat}

theorem le_of_shownAt (h : shownAt p chars q = some n) : p.x ≤ q.x := by
  induction chars generalizing p
  case nil => simp [shownAt] at h
  case cons ch rest hi =>
    rw [shownAt] at h
    split at h
    case isTrue hq => exact hq ▸ Int.le_refl _
    case isFalse =>
      split at h
      case isFalse => exact Int.le_of_lt (hi h)
      case isTrue =>
        split at h
        case isTrue hq => exact hq ▸ Int.le_of_lt (Int.lt_succ p.x)
        case isFalse =>
          have := hi h
          simp only at this
          omega

theorem shownAt_eq_none (h : q.x < p.x) : shownAt p chars q = none :=
  Option.eq_none_iff_forall_ne_some.mpr fun _ hs => Int.not_lt.mpr (le_of_shownAt hs) h

theorem le_two_of_shownAt (h : shownAt p chars q = some n) : n ≤ 2 := by
  induction chars generalizing p
  case nil => simp [shownAt] at h
  case cons ch rest hi =>
    have : Text.columns ch ≤ 2 := by unfold Text.columns; split <;> omega
    grind [shownAt]

-- By induction on the text. What is behind a wide character starts behind its second cell.
theorem shownAt_eq_two_iff : shownAt p chars q = some 2 ↔ shownAt p chars q.next = some 0 := by
  induction chars generalizing p
  case nil => simp [shownAt]
  case cons ch rest hi =>
    have hpos := Text.columns_pos ch
    have hbefore (start : Cell) (h : q.x < start.x) : shownAt start rest q ≠ some 2 := by simp [shownAt_eq_none h]
    rw [shownAt, shownAt]
    by_cases hq : q = p
    case pos =>
      subst hq
      have hne : q.next ≠ q := Cell.next_ne q
      by_cases hw : Text.isWide ch = true
      case pos => simp [hw, hne, Text.columns]
      case neg =>
        have := hbefore ⟨q.x + 1, q.y⟩ (Int.lt_succ q.x)
        simpa [hw, hne, Text.columns, ← hi] using this
    case neg =>
      by_cases hnext : q.next = p
      case pos =>
        subst hnext
        have hlt : q.x < q.next.x := Int.lt_succ q.x
        have hrest {start : Cell} (h : q.next.x ≤ start.x) : shownAt start rest q ≠ some 2 := hbefore start (by omega)
        grind [Cell.next]
      case neg =>
        have hinj : q.next = p.next ↔ q = p := Cell.next_inj
        grind [Cell.next]

-- By induction on the text.
theorem columnsAt_drawChars : (c.drawChars p reason chars).columnsAt q =
    if c.contains q then (shownAt p chars q).getD (c.columnsAt q) else c.columnsAt q := by
  induction chars generalizing c p
  case nil => simp [drawChars, shownAt]
  case cons ch rest hi =>
    have hbehind (start : Cell) (h : q.x < start.x) : shownAt start rest q = none := shownAt_eq_none h
    rw [drawChars, shownAt]
    split
    case isTrue hw =>
      rw [hi, contains_set, contains_set, columnsAt_set, columnsAt_set, contains_set]
      by_cases hq : q = p
      case pos =>
        subst hq
        have hne : q ≠ ⟨q.x + 1, q.y⟩ := (Cell.next_ne q).symm
        simp [hne, hbehind ⟨q.x + 2, q.y⟩ (by simp only; omega)]
      case neg =>
        by_cases hnext : q = p.next
        case pos =>
          have hne : (⟨p.x + 1, p.y⟩ : Cell) ≠ p := Cell.next_ne p
          subst hnext
          rw [hbehind ⟨p.x + 2, p.y⟩ (by simp only [Cell.next]; omega)]
          simp [Cell.next, Text.displayWidth, hne]
        case neg =>
          have hne : q ≠ ⟨p.x + 1, p.y⟩ := hnext
          simp [hq, hnext, hne]
    case isFalse hw =>
      rw [hi, contains_set, columnsAt_set]
      by_cases hq : q = p
      case pos =>
        subst hq
        simp [hbehind ⟨q.x + 1, q.y⟩ (by simp only; omega)]
      case neg => simp [hq]

theorem size_drawChars : (c.drawChars p reason chars).size = c.size := by
  induction chars generalizing c p
  case nil => rfl
  case cons ch rest hi =>
    rw [drawChars]
    split <;> simp only [hi, size_set]

end Texts

end Canvas

-- A glyph and the cell that it is written to.
structure Mark where
  cell : Cell
  glyph : Glyph
  reason : String
  source : String

-- What is drawn in one go.
inductive Stroke where
  -- A character of one column.
  | char (p : Cell) (ch : Char) (narrow : Text.isWide ch = false) (reason source : String)
  | text (p : Cell) (content reason : String)
  | marks (marks : List Mark)
  -- A part of a connector.
  | line (p : Cell) (d : Directions) (dashed : Bool)

namespace Stroke

variable {c : Canvas} {s : Stroke} {p q : Cell} {n : Nat}

def draw (c : Canvas) : Stroke → Canvas
  | char p ch _ reason source => c.set p ch.toString reason source
  | text p content reason => c.drawText p content reason
  | marks ms => ms.foldl (fun c m => c.setGlyph m.cell m.glyph m.reason m.source) c
  | line p d dashed => c.connect p d dashed

-- The columns of what is written to a cell. The parts of a connector change no width.
def shows : Stroke → Cell → Option Nat
  | char p _ _ _ _, q => if q = p then some 1 else none
  | text p content _, q => Canvas.shownAt p content.toList q
  | marks ms, q => if q ∈ ms.map (·.cell) then some 1 else none
  | line _ _ _, _ => none

theorem size_draw : (s.draw c).size = c.size := by
  cases s
  case char => exact Canvas.size_set
  case text => exact Canvas.size_drawChars
  case line => exact Canvas.size_connect ..
  case marks ms =>
    rw [draw]
    induction ms generalizing c
    case nil => rfl
    case cons m ms hi => rw [List.foldl_cons, hi, Canvas.setGlyph, Canvas.size_set]

theorem size_foldl_draw {strokes : List Stroke} : (strokes.foldl draw c).size = c.size := by
  induction strokes generalizing c
  case nil => rfl
  case cons s strokes hi => rw [List.foldl_cons, hi, size_draw]

theorem columnsAt_draw : (s.draw c).columnsAt q =
    if c.contains q then (s.shows q).getD (c.columnsAt q) else c.columnsAt q := by
  cases s
  case text => exact Canvas.columnsAt_drawChars
  case line => simp [draw, shows, Canvas.columnsAt_connect]
  case char p ch narrow reason source =>
    have hone : Text.displayWidth ch.toString = 1 :=
      (Text.displayWidth_singleton ch).trans (by simp [Text.columns, narrow])
    rw [draw, shows, Canvas.columnsAt_set, hone]
    by_cases hq : q = p <;> simp [hq]
  case marks ms =>
    rw [draw, shows]
    induction ms generalizing c
    case nil => simp
    case cons m ms hi =>
      rw [List.foldl_cons, hi, Canvas.setGlyph, Canvas.contains_set, ← Canvas.setGlyph, Canvas.columnsAt_setGlyph]
      by_cases hq : q = m.cell
      case pos =>
        subst hq
        simp only [List.map_cons, List.mem_cons, true_or, if_true, Option.getD_some, true_and]
        by_cases hm : m.cell ∈ ms.map (·.cell) <;> by_cases hc : c.contains m.cell <;> simp [hm, hc]
      case neg => simp [hq]

theorem le_two_of_shows (h : s.shows p = some n) : n ≤ 2 := by
  cases s
  case text => exact Canvas.le_two_of_shownAt h
  all_goals
    simp only [shows] at h
    grind

theorem shows_eq_two_iff : s.shows p = some 2 ↔ s.shows p.next = some 0 := by
  cases s
  case text => exact Canvas.shownAt_eq_two_iff
  all_goals
    simp only [shows]
    grind

-- At a cell, a stroke writes over one half of a wide character only, or the border of the canvas keeps one half of a
-- wide character of the stroke from being written.
def CutsAt (c : Canvas) (s : Stroke) (p : Cell) : Prop :=
  (c.columnsAt p = 2 ∧ ¬((s.shows p).isSome ↔ (s.shows p.next).isSome)) ∨
    (s.shows p = some 2 ∧ ¬(c.contains p ↔ c.contains p.next))

instance : Decidable (CutsAt c s p) :=
  inferInstanceAs (Decidable (_ ∨ _))

def Cuts (c : Canvas) (s : Stroke) : Prop :=
  ∃ p, CutsAt c s p

-- The cells of a canvas and those to the left of it.
def cellsNear (c : Canvas) : List Cell :=
  (Canvas.between (-1) c.width).flatMap fun x => (Canvas.between 0 c.height).map fun y => ⟨x, y⟩

theorem mem_cellsNear_iff : p ∈ cellsNear c ↔ -1 ≤ p.x ∧ p.x < c.width ∧ 0 ≤ p.y ∧ p.y < c.height := by
  simp only [cellsNear, List.mem_flatMap, List.mem_map, Canvas.mem_between]
  constructor
  · rintro ⟨x, hx, y, hy, rfl⟩
    exact ⟨hx.left, hx.right, hy⟩
  · intro ⟨hl, hr, hy⟩
    exact ⟨p.x, ⟨hl, hr⟩, p.y, hy, rfl⟩

-- Nothing can be cut further away.
theorem mem_cellsNear_of_cutsAt (h : CutsAt c s p) : p ∈ cellsNear c := by
  have hor : c.contains p ∨ c.contains p.next := by
    rcases h with ⟨hwide, _⟩ | ⟨_, hborder⟩
    · exact .inl (Canvas.contains_of_columnsAt_ne_one (by omega))
    · by_contra hn
      exact hborder (iff_of_false (fun h => hn (.inl h)) fun h => hn (.inr h))
  rw [mem_cellsNear_iff]
  simp only [Canvas.contains_iff, Cell.next] at hor
  omega

instance : Decidable (Cuts c s) :=
  decidable_of_iff (∃ p ∈ cellsNear c, CutsAt c s p)
    ⟨fun ⟨p, _, h⟩ => ⟨p, h⟩, fun ⟨p, h⟩ => ⟨p, mem_cellsNear_of_cutsAt h, h⟩⟩

-- Whatever the stroke is, this is when it leaves the canvas whole.
theorem whole_draw_iff (h : c.Whole) : (s.draw c).Whole ↔ ¬s.Cuts c := by
  have hout {q : Cell} (hq : ¬c.contains q) : c.columnsAt q = 1 := Canvas.columnsAt_of_not_contains hq
  have hwide (p : Cell) : ((s.draw c).columnsAt p = 2 ↔ (s.draw c).columnsAt p.next = 0) ↔ ¬CutsAt c s p := by
    have hold := h.wide_iff p
    have hnew := shows_eq_two_iff (s := s) (p := p)
    have hp := hout (q := p)
    have hnext := hout (q := p.next)
    rw [columnsAt_draw, columnsAt_draw, CutsAt]
    by_cases hcp : c.contains p <;> by_cases hcn : c.contains p.next <;> cases hs : s.shows p <;>
      cases ht : s.shows p.next <;> simp_all
  simp only [Cuts, not_exists, ← hwide]
  refine ⟨fun hw => hw.wide_iff, fun hw => ⟨fun p => ?_, hw⟩⟩
  have hold := h.le_two p
  rw [columnsAt_draw]
  split
  case isFalse => exact hold
  case isTrue =>
    cases hs : s.shows p
    case none => exact hold
    case some n => exact le_two_of_shows hs

-- No stroke cuts a wide character on the canvas as it is by then.
def CutNone : Canvas → List Stroke → Prop
  | _, [] => True
  | c, s :: strokes => ¬Cuts c s ∧ CutNone (s.draw c) strokes

instance CutNone.decidable : (c : Canvas) → (strokes : List Stroke) → Decidable (CutNone c strokes)
  | _, [] => .isTrue trivial
  | c, s :: strokes =>
    have := CutNone.decidable (s.draw c) strokes
    inferInstanceAs (Decidable (_ ∧ _))

-- By induction on the strokes. They cut nothing exactly if they leave the canvas whole at all stages.
theorem cutNone_iff {strokes : List Stroke} (h : c.Whole) :
    CutNone c strokes ↔ ∀ stage, stage <+: strokes → (stage.foldl draw c).Whole := by
  induction strokes generalizing c
  case nil => simpa [CutNone] using h
  case cons s strokes hi =>
    rw [CutNone, ← whole_draw_iff h]
    constructor
    case mp =>
      rintro ⟨hs, hrest⟩ stage hstage
      rcases List.prefix_cons_iff.mp hstage with rfl | ⟨rest, rfl, hprefix⟩
      · exact h
      · exact (hi hs).mp hrest rest hprefix
    case mpr =>
      intro hall
      have hs : (s.draw c).Whole := hall [s] (by simp)
      exact ⟨hs, (hi hs).mpr fun stage hstage => hall (s :: stage) (List.cons_prefix_cons.mpr ⟨rfl, hstage⟩)⟩

end Stroke

namespace Canvas

-- What a canvas can be asked to draw.
inductive Command where
  -- A character of one column.
  | char (p : Cell) (ch : Char) (narrow : Text.isWide ch = false) (reason source : String)
  | text (p : Cell) (content reason : String)
  | line (p : Cell) (d : Directions) (dashed : Bool)
  | frame (p : Cell) (width height : Int) (dashed : Bool)
  | box (p : Cell) (width : Int) (sections : Sections)
  | path (cells : List Cell) (dashed : Bool) (start stop : Option Marker)

namespace Command

variable {c : Canvas} {p : Cell} {width height : Int} {dashed : Bool}

def run (c : Canvas) : Command → Canvas
  | char p ch _ reason source => c.set p ch.toString reason source
  | text p content reason => c.drawText p content reason
  | line p d dashed => c.connect p d dashed
  | frame p width height dashed => c.drawFrame p width height dashed
  | box p width sections => c.drawBox p width sections
  | path cells dashed start stop => c.drawPath cells dashed start stop

-- The glyphs of a frame: the horizontal sides, the vertical ones, and the corners.
def frameMarks (p : Cell) (width height : Int) (dashed : Bool) : List Mark :=
  if width < 2 ∨ height < 2 then [] else
  let style := if dashed then FrameStyle.dashed else FrameStyle.solid
  let right := p.x + width - 1
  let bottom := p.y + height - 1
  ((between (p.x + 1) right).flatMap fun x =>
      [⟨⟨x, p.y⟩, style.horizontal, "frame", frameSource⟩, ⟨⟨x, bottom⟩, style.horizontal, "frame", frameSource⟩])
    ++ ((between (p.y + 1) bottom).flatMap fun y =>
      [⟨⟨p.x, y⟩, style.vertical, "frame", frameSource⟩, ⟨⟨right, y⟩, style.vertical, "frame", frameSource⟩])
    ++ [⟨p, style.topLeft, "frame_corner", frameSource⟩, ⟨⟨right, p.y⟩, style.topRight, "frame_corner", frameSource⟩,
      ⟨⟨p.x, bottom⟩, style.bottomLeft, "frame_corner", frameSource⟩,
      ⟨⟨right, bottom⟩, style.bottomRight, "frame_corner", frameSource⟩]

def dividerMarks (p : Cell) (width : Int) : List Mark :=
  let mark (x : Int) (g : Glyph) : Mark := ⟨⟨x, p.y⟩, g, "separator", "BoxRenderer.draw_box"⟩
  mark p.x .teeRight :: (between (p.x + 1) (p.x + width - 1)).map (mark · .horizontal)
    ++ [mark (p.x + width - 1) .teeLeft]

def lineStrokes (p : Cell) (width : Int) : List String → List Stroke
  | [] => []
  | content :: rest =>
    .text ⟨p.x + 1 + (width - 2 - Text.displayWidth content) / 2, p.y⟩ content "box_text" ::
      lineStrokes ⟨p.x, p.y + 1⟩ width rest

def sectionStrokes (p : Cell) (width : Int) : Sections → List Stroke
  | [] => []
  | [s] => lineStrokes p width s
  | s :: rest =>
    let divider : Cell := ⟨p.x, p.y + Sections.sectionRows s⟩
    lineStrokes p width s ++ .marks (dividerMarks divider width) ::
      sectionStrokes ⟨p.x, divider.y + 1⟩ width rest

-- A marker with the heading of a path at one of its ends.
def markerStroke (p : Cell) (heading : Option Heading) (m : Marker) : Stroke :=
  .marks [⟨p, m.glyph (heading.getD .down), "marker", "LineRenderer.draw_marker"⟩]

def startStrokes (cells : List Cell) : Option Marker → List Stroke
  | none => []
  | some m =>
    match bends cells with
    | a :: b :: _ => [markerStroke a (b.heading? a) m]
    | _ => []

def stopStrokes (cells : List Cell) : Option Marker → List Stroke
  | none => []
  | some m =>
    match (bends cells).reverse with
    | b :: a :: _ => [markerStroke b (a.heading? b) m]
    | [p] => [markerStroke p none m]
    | [] => []

-- The strokes that a command consists of, in their order.
def strokes : Command → List Stroke
  | char p ch narrow reason source => [.char p ch narrow reason source]
  | text p content reason => [.text p content reason]
  | line p d dashed => [.line p d dashed]
  | frame p width height dashed => [.marks (frameMarks p width height dashed)]
  | box p width sections =>
    .marks (frameMarks p width sections.boxHeight false) :: sectionStrokes ⟨p.x, p.y + 1⟩ width sections
  | path cells dashed start stop =>
    (Join.merged (Join.visits (bends cells))).map (fun j => .line j.cell j.directions dashed)
      ++ startStrokes cells start ++ stopStrokes cells stop

theorem drawFrame_eq : c.drawFrame p width height dashed = (Stroke.marks (frameMarks p width height dashed)).draw c := by
  rw [drawFrame, frameMarks, Stroke.draw]
  split
  case isTrue => rfl
  case isFalse => simp [List.foldl_append, List.foldl_flatMap]

theorem drawDivider_eq : c.drawDivider p width = (Stroke.marks (dividerMarks p width)).draw c := by
  simp [drawDivider, dividerMarks, Stroke.draw, List.foldl_append, List.foldl_map]

theorem drawBoxLines_eq (lines : List String) :
    c.drawBoxLines p width lines = (lineStrokes p width lines).foldl Stroke.draw c := by
  induction lines generalizing c p
  case nil => rfl
  case cons content rest hi => exact hi

theorem drawSections_eq (sections : Sections) :
    c.drawSections p width sections = (sectionStrokes p width sections).foldl Stroke.draw c := by
  fun_induction sectionStrokes p width sections generalizing c
  case case1 => rfl
  case case2 s => exact drawBoxLines_eq s
  case case3 s rest hne divider hi =>
    rw [drawSections, List.foldl_append, List.foldl_cons, ← drawBoxLines_eq, ← drawDivider_eq]
    · exact hi
    · exact hne

theorem drawStartMarker_eq (cells : List Cell) (m : Marker) :
    c.drawStartMarker cells m = (startStrokes cells (some m)).foldl Stroke.draw c := by
  simp only [drawStartMarker, startStrokes]
  generalize bends cells = turns
  rcases turns with _ | ⟨a, _ | ⟨b, rest⟩⟩ <;> rfl

theorem drawEndMarker_eq (cells : List Cell) (m : Marker) :
    c.drawEndMarker cells m = (stopStrokes cells (some m)).foldl Stroke.draw c := by
  simp only [drawEndMarker, stopStrokes]
  generalize (bends cells).reverse = cells
  split <;> rfl

theorem drawPath_eq (cells : List Cell) (start stop : Option Marker) :
    c.drawPath cells dashed start stop = (path cells dashed start stop).strokes.foldl Stroke.draw c := by
  have hline : c.drawLine cells dashed = ((Join.merged (Join.visits (bends cells))).map fun j =>
      Stroke.line j.cell j.directions dashed).foldl Stroke.draw c := by
    rw [List.foldl_map]
    rfl
  rw [strokes, List.foldl_append, List.foldl_append, ← hline]
  cases start <;> cases stop
  case none.none => rfl
  case none.some m => exact drawEndMarker_eq cells m
  case some.none m => exact drawStartMarker_eq cells m
  case some.some m m' =>
    rw [← drawStartMarker_eq, ← drawEndMarker_eq]
    rfl

theorem run_eq (command : Command) : command.run c = command.strokes.foldl Stroke.draw c := by
  cases command
  case char => rfl
  case text => rfl
  case line => rfl
  case frame => exact drawFrame_eq
  case box => rw [run, drawBox, drawFrame_eq, drawSections_eq]; rfl
  case path => exact drawPath_eq ..

theorem foldl_run (commands : List Command) :
    commands.foldl run c = (commands.flatMap strokes).foldl Stroke.draw c := by
  induction commands generalizing c
  case nil => rfl
  case cons command commands hi => rw [List.foldl_cons, hi, run_eq, List.flatMap_cons, List.foldl_append]

-- What commands draw on a fresh canvas leaves it whole at all times exactly if no stroke cuts a wide character; then
-- all rows are as wide as the canvas.
theorem rows_of_cutNone (commands : List Command) (width height : Nat) (charset : Charset) (recording : Bool) :
    let fresh := blank width height charset recording
    let strokes := commands.flatMap strokes
    (Stroke.CutNone fresh strokes ↔ ∀ stage, stage <+: strokes → (stage.foldl Stroke.draw fresh).Whole) ∧
      (Stroke.CutNone fresh strokes → ∀ row ∈ (commands.foldl run fresh).rows, Text.displayWidth row = width) := by
  intro fresh strokes
  have hstages : Stroke.CutNone fresh strokes ↔ ∀ stage, stage <+: strokes → (stage.foldl Stroke.draw fresh).Whole :=
    Stroke.cutNone_iff (whole_blank width height charset recording)
  refine ⟨hstages, fun hnone row hrow => ?_⟩
  rw [foldl_run] at hrow
  have hwhole := hstages.mp hnone strokes (List.prefix_refl _)
  have hsize : (strokes.foldl Stroke.draw fresh).size = (width, height) := Stroke.size_foldl_draw
  rw [hwhole.displayWidth_row hrow]
  exact congrArg Prod.fst hsize

-- A text that covers wide characters of another one, beside a text that the border cuts between two of them.
theorem rows_of_cutNone_covered :
    let commands := [box ⟨0, 0⟩ 8 [["中文"]], text ⟨2, 1⟩ "語" "text", line ⟨1, 1⟩ (.ofList [.left, .right]) false,
      text ⟨6, 3⟩ "語文" "text"]
    ∀ row ∈ (commands.foldl run (blank 8 4 .unicode false)).rows, Text.displayWidth row = 8 :=
  (rows_of_cutNone _ 8 4 .unicode false).right (by decide +kernel)

-- A character in the second cell of a wide one.
theorem rows_of_cut :
    let commands := [text ⟨0, 0⟩ "中" "text", char ⟨1, 0⟩ 'x' rfl "" ""]
    ¬∀ row ∈ (commands.foldl run (blank 2 1 .unicode false)).rows, Text.displayWidth row = 2 := by
  decide +kernel

end Command

end Canvas

end LayeredDiagram
