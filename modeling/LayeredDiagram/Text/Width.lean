import LayeredDiagram.Numeric.Scalar
/-!
Widths of texts. Ideographs, Hangul, full-width forms and emoji are two columns wide, every other
character is one. The width in pixels is estimated from the columns and the weight of the font.
-/

namespace LayeredDiagram.Text

-- First and last code points of the ranges of wide characters, in rising order.
def wideRanges : List (Nat × Nat) := [
  (0x1100, 0x115F), (0x2E80, 0x303E), (0x3040, 0x33BF), (0x3400, 0x4DBF), (0x4E00, 0x9FFF),
  (0xA960, 0xA97C), (0xAC00, 0xD7A3), (0xF900, 0xFAFF), (0xFE10, 0xFE19), (0xFE30, 0xFE6F),
  (0xFF00, 0xFF60), (0xFFE0, 0xFFE6), (0x1F000, 0x1FAFF), (0x20000, 0x2FA1F)]

def isWide (c : Char) : Bool :=
  wideRanges.any fun (first, last) => first ≤ c.toNat && c.toNat ≤ last

-- Columns taken by one character.
def columns (c : Char) : Nat :=
  if isWide c then 2 else 1

def displayWidth (s : String) : Nat :=
  s.toList.foldr (fun c total => columns c + total) 0

theorem columns_pos (c : Char) : 0 < columns c := by
  unfold columns
  split <;> decide

variable {α : Type} [Scalar α]

-- Average width of a column as a part of the font size: heavier fonts are wider.
def widthRatio (weight : Int) : α :=
  if 600 ≤ weight then 0.58 else if 500 ≤ weight then 0.55 else 0.52

-- Estimated width in pixels in a proportional font.
def estimatedWidth (s : String) (size : α) (weight : Int) : α :=
  if s.isEmpty then 0.0 else ((displayWidth s : Nat) : α) * size * widthRatio weight

-- Estimated width in pixels in a font whose columns are all the same.
def estimatedMonoWidth (s : String) (size : α) : α :=
  if s.isEmpty then 0.0 else ((displayWidth s : Nat) : α) * size * 0.6

end LayeredDiagram.Text
