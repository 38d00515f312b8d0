/-!
Glyphs of text art. A line glyph connects its cell to some of its four neighbours; where lines meet,
the glyph with all their directions takes the cell.
-/

namespace LayeredDiagram

inductive Heading where
  | up
  | down
  | left
  | right
  deriving DecidableEq

namespace Heading

def name : Heading → String
  | up => "up"
  | down => "down"
  | left => "left"
  | right => "right"

def opposite : Heading → Heading
  | up => down
  | down => up
  | left => right
  | right => left

-- Columns moved by one step.
def dx : Heading → Int
  | left => -1
  | right => 1
  | _ => 0

-- Rows moved by one step.
def dy : Heading → Int
  | up => -1
  | down => 1
  | _ => 0

def all : List Heading :=
  [up, down, left, right]

end Heading

-- A set of headings.
structure Directions where
  up : Bool := false
  down : Bool := false
  left : Bool := false
  right : Bool := false
  deriving DecidableEq

namespace Directions

def none : Directions := {}

def horizontal : Directions :=
  { left := true, right := true }

def vertical : Directions :=
  { up := true, down := true }

def ofHeading : Heading → Directions
  | .up => { up := true }
  | .down => { down := true }
  | .left => { left := true }
  | .right => { right := true }

def has (d : Directions) : Heading → Bool
  | .up => d.up
  | .down => d.down
  | .left => d.left
  | .right => d.right

def union (a b : Directions) : Directions :=
  { up := a.up || b.up, down := a.down || b.down, left := a.left || b.left,
    right := a.right || b.right }

def ofList (hs : List Heading) : Directions :=
  hs.foldl (fun d h => d.union (ofHeading h)) none

theorem has_union (a b : Directions) (h : Heading) : (a.union b).has h = (a.has h || b.has h) := by
  cases h <;> rfl

theorem has_ofHeading (a b : Heading) : (ofHeading a).has b = decide (a = b) := by
  cases a <;> cases b <;> rfl

theorem union_assoc (a b c : Directions) : (a.union b).union c = a.union (b.union c) := by
  simp [union, Bool.or_assoc]

theorem ext_has {a b : Directions} (h : ∀ x, a.has x = b.has x) : a = b := by
  cases a
  cases b
  have hu := h .up
  have hd := h .down
  have hl := h .left
  have hr := h .right
  simp_all [has]

end Directions

inductive Glyph where
  | horizontal
  | vertical
  | topLeft
  | topRight
  | bottomLeft
  | bottomRight
  | teeRight
  | teeLeft
  | teeDown
  | teeUp
  | cross
  | dashHorizontal
  | dashVertical
  | dashCorner
  | arrow (h : Heading)
  | openArrow (h : Heading)
  | diamond
  | openDiamond
  | circle
  deriving DecidableEq

namespace Glyph

def name : Glyph → String
  | horizontal => "horizontal"
  | vertical => "vertical"
  | topLeft => "top_left"
  | topRight => "top_right"
  | bottomLeft => "bottom_left"
  | bottomRight => "bottom_right"
  | teeRight => "tee_right"
  | teeLeft => "tee_left"
  | teeDown => "tee_down"
  | teeUp => "tee_up"
  | cross => "cross"
  | dashHorizontal => "dash_horizontal"
  | dashVertical => "dash_vertical"
  | dashCorner => "dash_corner"
  | arrow h => "arrow_" ++ h.name
  | openArrow h => "open_" ++ h.name
  | diamond => "diamond"
  | openDiamond => "open_diamond"
  | circle => "circle"

def all : List Glyph :=
  [horizontal, vertical, topLeft, topRight, bottomLeft, bottomRight, teeRight, teeLeft, teeDown,
    teeUp, cross, dashHorizontal, dashVertical, dashCorner]
  ++ Heading.all.map arrow ++ Heading.all.map openArrow ++ [diamond, openDiamond, circle]

def ofName? (s : String) : Option Glyph :=
  all.find? (·.name == s)

def lines : List Glyph :=
  [horizontal, vertical, dashHorizontal, dashVertical, topLeft, topRight, bottomLeft, bottomRight,
    teeRight, teeLeft, teeDown, teeUp, cross]

-- The directions that a line glyph connects; other glyphs connect nothing.
def directions : Glyph → Directions
  | horizontal | dashHorizontal => .horizontal
  | vertical | dashVertical => .vertical
  | topLeft => { down := true, right := true }
  | topRight => { down := true, left := true }
  | bottomLeft => { up := true, right := true }
  | bottomRight => { up := true, left := true }
  | teeRight => { up := true, down := true, right := true }
  | teeLeft => { up := true, down := true, left := true }
  | teeDown => { down := true, left := true, right := true }
  | teeUp => { up := true, left := true, right := true }
  | cross => { up := true, down := true, left := true, right := true }
  | _ => .none

-- The solid glyph for a set of directions. A single direction gets the full straight line, and the
-- empty set has no glyph.
def ofDirections? : Directions → Option Glyph
  | ⟨false, false, false, false⟩ => none
  | ⟨false, false, _, _⟩ => some horizontal
  | ⟨_, _, false, false⟩ => some vertical
  | ⟨false, true, false, true⟩ => some topLeft
  | ⟨false, true, true, false⟩ => some topRight
  | ⟨true, false, false, true⟩ => some bottomLeft
  | ⟨true, false, true, false⟩ => some bottomRight
  | ⟨true, true, false, true⟩ => some teeRight
  | ⟨true, true, true, false⟩ => some teeLeft
  | ⟨false, true, true, true⟩ => some teeDown
  | ⟨true, false, true, true⟩ => some teeUp
  | ⟨true, true, true, true⟩ => some cross

-- The dashed form of a straight line; all other glyphs have none of their own.
def dashed : Glyph → Glyph
  | horizontal => dashHorizontal
  | vertical => dashVertical
  | g => g

theorem ofDirections?_eq_none_iff (d : Directions) : ofDirections? d = none ↔ d = .none := by
  obtain ⟨u, d, l, r⟩ := d
  cases u <;> cases d <;> cases l <;> cases r <;> simp [ofDirections?, Directions.none]

end Glyph

-- Whether glyphs are box drawing characters or plain ones.
inductive Charset where
  | unicode
  | ascii
  deriving DecidableEq

namespace Charset

-- The character set for pictures in ASCII alone, or the other one.
def ofAscii (usesAscii : Bool) : Charset :=
  if usesAscii then ascii else unicode

def unicodeChar : Glyph → Char
  | .horizontal => '─'
  | .vertical => '│'
  | .topLeft => '┌'
  | .topRight => '┐'
  | .bottomLeft => '└'
  | .bottomRight => '┘'
  | .teeRight => '├'
  | .teeLeft => '┤'
  | .teeDown => '┬'
  | .teeUp => '┴'
  | .cross => '┼'
  | .dashHorizontal => '╌'
  | .dashVertical => '┊'
  | .dashCorner => '+'
  | .arrow .down => '▼'
  | .arrow .up => '▲'
  | .arrow .left => '◄'
  | .arrow .right => '►'
  | .openArrow .down => '▽'
  | .openArrow .up => '△'
  | .openArrow .left => '◁'
  | .openArrow .right => '▷'
  | .diamond => '◆'
  | .openDiamond => '◇'
  | .circle => '●'

def asciiChar : Glyph → Char
  | .horizontal => '-'
  | .vertical => '|'
  | .dashHorizontal => '.'
  | .dashVertical => ':'
  | .arrow .down | .openArrow .down => 'v'
  | .arrow .up | .openArrow .up => '^'
  | .arrow .left | .openArrow .left => '<'
  | .arrow .right | .openArrow .right => '>'
  | .diamond => '*'
  | .openDiamond | .circle => 'o'
  | _ => '+'

def char : Charset → Glyph → Char
  | unicode => unicodeChar
  | ascii => asciiChar

-- The content of a cell that shows a glyph.
def text (c : Charset) (g : Glyph) : String :=
  String.singleton (c.char g)

-- The directions connected by the content of a cell, if it is a line glyph. Where several glyphs
-- share a character, it reads as the last of them: a plain `+` is a full cross.
def directions? (c : Charset) (content : String) : Option Directions :=
  (Glyph.lines.reverse.find? fun g => c.text g == content).map Glyph.directions

end Charset

end LayeredDiagram
