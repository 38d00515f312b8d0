import LayeredDiagram.Numeric.Rounding
/-!
Numbers that lengths and coordinates are measured in. Sizing, layout and geometry are written
once over this class; drawings are computed with `Quantity`, and statements about exact arithmetic
speak of the rational instance.
-/

namespace LayeredDiagram

-- An arithmetic with decidable comparisons and exact rounding to integers.
class Scalar (α : Type) extends
    Add α, Sub α, Mul α, Div α, Neg α, LT α, LE α, NatCast α, IntCast α, OfScientific α where
  -- Every natural number is a literal.
  [natural : (n : Nat) → OfNat α n]
  [decideLT : DecidableLT α]
  [decideLE : DecidableLE α]
  -- The largest integer that is at most the number.
  floor : α → Int
  -- The smallest integer that is at least the number.
  ceil : α → Int
  -- The nearest integer, halves to even.
  nearest : α → Int
  -- The number rounded to six decimals, halves to even.
  sixDecimals : α → α

namespace Scalar

attribute [reducible] Scalar.natural Scalar.decideLT Scalar.decideLE
attribute [instance] Scalar.natural Scalar.decideLT Scalar.decideLE

variable {α : Type} [Scalar α]

-- The larger of two numbers, the first on a tie.
def larger (a b : α) : α :=
  if a < b then b else a

def smaller (a b : α) : α :=
  if b < a then b else a

-- The distance to zero.
def magnitude (a : α) : α :=
  if a < 0 then -a else a

-- The sum of a list, added up from the left.
def sum (xs : List α) : α :=
  xs.foldl (· + ·) 0

def largest? : List α → Option α
  | [] => none
  | x :: xs => some (xs.foldl larger x)

def smallest? : List α → Option α
  | [] => none
  | x :: xs => some (xs.foldl smaller x)

def half (a : α) : α :=
  a / 2

end Scalar

namespace Rounding

-- A rational number rounded to six decimals.
def sixDecimals (q : Rat) : Rat :=
  (halfEven (q * 1000000).num (q * 1000000).den : Rat) / 1000000

end Rounding

instance : Scalar Rat where
  floor := Rat.floor
  ceil := Rat.ceil
  nearest q := Rounding.halfEven q.num q.den
  sixDecimals := Rounding.sixDecimals

end LayeredDiagram
