import LayeredDiagram.Canvas.Glyph
import LayeredDiagram.Canvas.Placement
import LayeredDiagram.Graph.Geometry
import LayeredDiagram.Text.Blank
import LayeredDiagram.Text.Width
/-!
A grid of cells. A cell holds one character, a wide character also takes the cell after it, which is
left empty, and blank cells hold a space. Writes outside the grid have no effect. Every write can be
recorded.
-/

namespace LayeredDiagram

-- A position on a canvas: a column and a row.
abbrev Cell := Point Int

structure Canvas where
  width : Nat
  height : Nat
  charset : Charset
  cells : Vector (Vector String width) height
  -- The writes so far, the last one first, if they are recorded.
  history : Option (List Placement)

namespace Canvas

-- A canvas of blank cells.
def blank (width height : Nat) (charset : Charset) (recording : Bool) : Canvas where
  width
  height
  charset
  cells := Vector.replicate height (Vector.replicate width " ")
  history := if recording then some [] else none

def contains (c : Canvas) (p : Cell) : Bool :=
  0 ≤ p.x && p.x < c.width && 0 ≤ p.y && p.y < c.height

-- The content of a cell; outside the grid everything is blank.
def get (c : Canvas) (p : Cell) : String :=
  if _ : 0 ≤ p.x ∧ p.x.toNat < c.width ∧ 0 ≤ p.y ∧ p.y.toNat < c.height then
    c.cells[p.y.toNat][p.x.toNat]
  else " "

-- The placement that a write to a cell makes.
def placement (c : Canvas) (p : Cell) (text reason source : String) : Placement :=
  { x := p.x, y := p.y, text, previous := c.get p, reason, source }

def set (c : Canvas) (p : Cell) (text reason source : String) : Canvas :=
  if h : 0 ≤ p.x ∧ p.x.toNat < c.width ∧ 0 ≤ p.y ∧ p.y.toNat < c.height then
    { c with
      cells := c.cells.set p.y.toNat (c.cells[p.y.toNat].set p.x.toNat text h.2.1) h.2.2.2
      history := c.history.map (c.placement p text reason source :: ·) }
  else c

theorem width_set (c : Canvas) (p : Cell) (t r s : String) : (c.set p t r s).width = c.width := by
  unfold set
  split <;> rfl

theorem height_set (c : Canvas) (p : Cell) (t r s : String) :
    (c.set p t r s).height = c.height := by
  unfold set
  split <;> rfl

theorem contains_iff (c : Canvas) (p : Cell) :
    c.contains p = true ↔ 0 ≤ p.x ∧ p.x.toNat < c.width ∧ 0 ≤ p.y ∧ p.y.toNat < c.height := by
  simp [contains]
  omega

-- A write changes its own cell and no other.
theorem get_set (c : Canvas) (p q : Cell) (t r s : String) :
    (c.set p t r s).get q = if q = p ∧ c.contains p then t else c.get q := by
  unfold set
  split
  next h =>
    simp only [get, (c.contains_iff p).2 h, and_true]
    split
    next hq =>
      by_cases hy : p.y.toNat = q.y.toNat
      · by_cases hx : p.x.toNat = q.x.toNat
        · obtain rfl : q = p := by
            cases p; cases q; simp_all; omega
          simp
        · have : q ≠ p := by rintro rfl; exact hx rfl
          simp [this, hy, hx]
      · have : q ≠ p := by rintro rfl; exact hy rfl
        simp [this, hy]
    next hq =>
      have : q ≠ p := by rintro rfl; exact hq h
      simp [this]
  next h =>
    have : c.contains p = false := by
      rw [Bool.eq_false_iff, Ne, c.contains_iff]
      exact h
    simp [this]

def setGlyph (c : Canvas) (p : Cell) (g : Glyph) (reason source : String) : Canvas :=
  c.set p (c.charset.text g) reason source

-- Writes characters one after the other. The empty cell after a wide character is written as well.
def drawChars (c : Canvas) (p : Cell) (reason : String) : List Char → Canvas
  | [] => c
  | ch :: rest =>
    let next := c.set p ch.toString reason "Canvas.draw_text"
    if Text.isWide ch then
      drawChars (next.set ⟨p.x + 1, p.y⟩ "" reason "Canvas.draw_text") ⟨p.x + 2, p.y⟩ reason rest
    else drawChars next ⟨p.x + 1, p.y⟩ reason rest

def drawText (c : Canvas) (p : Cell) (text : String) (reason : String := "text") : Canvas :=
  drawChars c p reason text.toList

-- The directions connected by the content of a cell, if it is a line glyph.
def directions? (c : Canvas) (p : Cell) : Option Directions :=
  c.charset.directions? (c.get p)

-- Adds line directions to a cell. A blank cell takes the line itself, dashed where it is straight;
-- a line already there is merged with it; anything else stays. There is no result if neither the
-- cell nor the line has a direction.
def connect? (c : Canvas) (p : Cell) (d : Directions) (dashed : Bool) : Option Canvas :=
  match c.directions? p with
  | some old =>
    (Glyph.ofDirections? (d.union old)).map fun g => c.setGlyph p g "junction" "Canvas.connect"
  | none =>
    if c.get p = " " then
      (Glyph.ofDirections? d).map fun g =>
        c.setGlyph p (if dashed then g.dashed else g) "line" "Canvas.connect"
    else some c

-- Adds line directions to a cell, if there are any.
def connect (c : Canvas) (p : Cell) (d : Directions) (dashed : Bool) : Canvas :=
  (c.connect? p d dashed).getD c

-- The rows with all their cells.
def rows (c : Canvas) : List String :=
  c.cells.toList.map fun row => String.join row.toList

-- The rows without blanks at their ends, from the first to the last one that is not blank.
def renderedRows (c : Canvas) : List String :=
  let trimmed := c.rows.map fun row => String.ofList (Text.trimEnd row.toList)
  ((trimmed.dropWhile (· == "")).reverse.dropWhile (· == "")).reverse

def render (c : Canvas) : String :=
  "\n".intercalate c.renderedRows

-- The writes in the order in which they were made, if they are recorded.
def placements (c : Canvas) : List Placement :=
  (c.history.getD []).reverse

end Canvas

end LayeredDiagram
