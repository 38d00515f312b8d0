import LayeredDiagram.Canvas.Basic
import Std.Data.HashMap
import Std.Data.HashSet
/-!
Connectors: paths along the axes, with markers at their ends.
-/

namespace LayeredDiagram

-- What stands at the end of a path.
inductive Marker where
  -- A filled arrow head, turned along the path.
  | arrow
  -- A hollow arrow head, turned along the path.
  | openArrow
  -- A glyph that looks the same for all headings.
  | fixed (g : Glyph)
  deriving DecidableEq

namespace Marker

def glyph (heading : Heading) : Marker → Glyph
  | arrow => .arrow heading
  | openArrow => .openArrow heading
  | fixed g => g

def ofName? (s : String) : Option Marker :=
  if s = "arrow" then some arrow
  else if s = "open" then some openArrow
  else (Glyph.ofName? s).map fixed

end Marker

namespace Cell

-- The heading from one cell to another, along the row if the columns differ.
def heading? (a b : Cell) : Option Heading :=
  if a.x < b.x then some .right
  else if b.x < a.x then some .left
  else if a.y < b.y then some .down
  else if b.y < a.y then some .up
  else none

def step (h : Heading) (p : Cell) : Cell :=
  ⟨p.x + h.dx, p.y + h.dy⟩

-- Number of steps from one cell to another in the same row or column.
def distance (a b : Cell) : Nat :=
  if a.x = b.x then (b.y - a.y).natAbs else (b.x - a.x).natAbs

end Cell

-- The directions that a path joins at one of its cells.
structure Join where
  cell : Cell
  directions : Directions

namespace Join

-- Follows a run of cells up to its end: every cell joins the one before and the one after it.
def follow (h : Heading) (p : Cell) : Nat → List Join
  | 0 => [⟨p, .ofHeading h.opposite⟩]
  | steps + 1 => ⟨p, .ofList [h.opposite, h]⟩ :: follow h (p.step h) steps

-- The joins on the run between two neighbouring bends.
def run (a b : Cell) : List Join :=
  match a.heading? b, a.distance b with
  | some h, steps + 1 => ⟨a, .ofHeading h⟩ :: follow h (a.step h) steps
  | _, _ => []

-- The joins on all runs of a path, cells visited repeatedly included.
def visits : List Cell → List Join
  | a :: b :: rest => run a b ++ visits (b :: rest)
  | _ => []

-- The directions of all visits to each cell.
def met (joins : List Join) : Std.HashMap Cell Directions :=
  joins.foldl (fun found j => found.insert j.cell ((found.getD j.cell .none).union j.directions)) ∅

-- Cells without repetitions and without those seen before.
def distinct (seen : Std.HashSet Cell) : List Cell → List Cell
  | [] => []
  | p :: ps => if seen.contains p then distinct seen ps else p :: distinct (seen.insert p) ps

-- One join for each cell, in the order of first visits, with the directions of all visits.
def merged (joins : List Join) : List Join :=
  let found := met joins
  (distinct ∅ (joins.map (·.cell))).map fun p => ⟨p, found.getD p .none⟩

end Join

namespace Canvas

-- Cells without immediate repetitions.
def bends : List Cell → List Cell
  | a :: b :: rest => if a = b then bends (b :: rest) else a :: bends (b :: rest)
  | s => s

-- Draws a path through cells; neighbours share a row or a column. Bends and crossings get the glyph
-- that joins all their directions.
def drawLine (c : Canvas) (cells : List Cell) (dashed : Bool) : Canvas :=
  (Join.merged (Join.visits (bends cells))).foldl (fun c j => c.connect j.cell j.directions dashed) c

-- Places a marker for a path that arrives with some heading, downwards if it has none.
def drawMarker (c : Canvas) (p : Cell) (heading : Option Heading) (m : Marker) : Canvas :=
  c.setGlyph p (m.glyph (heading.getD .down)) "marker" "LineRenderer.draw_marker"

-- Places the marker at the start of a path; a path of one cell has none.
def drawStartMarker (c : Canvas) (cells : List Cell) (m : Marker) : Canvas :=
  match bends cells with
  | a :: b :: _ => c.drawMarker a (b.heading? a) m
  | _ => c

def drawEndMarker (c : Canvas) (cells : List Cell) (m : Marker) : Canvas :=
  match (bends cells).reverse with
  | b :: a :: _ => c.drawMarker b (a.heading? b) m
  | [p] => c.drawMarker p none m
  | [] => c

-- Draws a path with markers at its ends.
def drawPath (c : Canvas) (cells : List Cell) (dashed : Bool) (start stop : Option Marker) : Canvas :=
  let c := c.drawLine cells dashed
  let c := match start with
    | some m => c.drawStartMarker cells m
    | none => c
  match stop with
  | some m => c.drawEndMarker cells m
  | none => c

end Canvas

end LayeredDiagram
