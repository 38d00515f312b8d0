/-!
Records of what is written to a canvas.
-/

namespace LayeredDiagram

-- One write to a cell.
structure Placement where
  x : Int
  y : Int
  text : String
  -- What the cell held before.
  previous : String
  -- What was drawn, such as a frame or a line.
  reason : String
  -- The routine that drew it.
  source : String
  deriving DecidableEq

namespace Placement

-- Whether the cell was not blank before.
def isOverwrite (p : Placement) : Bool :=
  p.previous ≠ " "

-- Whether lines were merged into one glyph.
def isJunction (p : Placement) : Bool :=
  p.reason == "junction"

-- The written form, with the earlier content if there was any.
def describe (p : Placement) : String :=
  let quote (s : String) : String := "'" ++ s ++ "'"
  let change := if p.isOverwrite then quote p.previous ++ " -> " ++ quote p.text else quote p.text
  s!"({p.x},{p.y}) " ++ change ++ s!" [{p.reason}] {p.source}"

end Placement

end LayeredDiagram
