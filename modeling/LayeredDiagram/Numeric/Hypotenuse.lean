import LayeredDiagram.Numeric.Binary
/-!
The length of a plane vector in doubles. The vector is scaled by a power of two so that its larger
side lies between one half and one; the squares are summed above a leading one, and whatever a sum
loses by rounding is kept apart; the root is then corrected once by the remainder it leaves. The
result is the nearest double but for a few vectors whose length lies almost halfway between two.
-/

namespace LayeredDiagram.Hypotenuse

-- Two parts of a double, each of half the digits, so that their products are exact.
def halves (x : Float) : Float × Float :=
  let t := x * 134217729.0
  let high := t - (t - x)
  (high, x - high)

-- A sum, and what its rounding has cut off. The second number must not be the larger one.
def plus (a x : Float) : Float × Float :=
  let sum := a + x
  (sum, (a - sum) + x)

-- A sum of squares above a leading one, with the parts that roundings have cut off.
structure SquareSum where
  leading : Float := 1.0
  -- What was cut off from the squares of upper halves.
  upper : Float := 0.0
  -- What was cut off from the mixed products.
  mixed : Float := 0.0
  -- What was cut off from the squares of lower halves.
  lower : Float := 0.0

namespace SquareSum

def addUpper (s : SquareSum) (x : Float) : SquareSum :=
  let (leading, lost) := plus s.leading x
  { s with leading, upper := s.upper + lost }

def addMixed (s : SquareSum) (x : Float) : SquareSum :=
  let (leading, lost) := plus s.leading x
  { s with leading, mixed := s.mixed + lost }

def addLower (s : SquareSum) (x : Float) : SquareSum :=
  let (leading, lost) := plus s.leading x
  { s with leading, lower := s.lower + lost }

-- Adds the square of a number below one. The square of its lower half is too small to be seen.
def addSquare (s : SquareSum) (x : Float) : SquareSum :=
  let (high, low) := halves x
  let s := (s.addUpper (high * high)).addMixed (2.0 * high * low)
  { s with lower := s.lower + low * low }

def subtractSquare (s : SquareSum) (x : Float) : SquareSum :=
  let (high, low) := halves x
  ((s.addUpper (-(high * high))).addMixed (-(2.0 * high * low))).addLower (-(low * low))

def value (s : SquareSum) : Float :=
  s.leading - 1.0 + (s.upper + s.mixed + s.lower)

end SquareSum

-- The length of a vector with sides below one.
def scaled (x y : Float) : Float :=
  let squares := (({} : SquareSum).addSquare x).addSquare y
  let root := squares.value.sqrt
  root + (squares.subtractSquare root).value / (2.0 * root)

-- The length of a vector with tiny sides, of which the larger one is given.
def tiny (largest x y : Float) : Float :=
  let sum (s : SquareSum) (side : Float) : SquareSum := s.addUpper (side / largest * (side / largest))
  largest * (sum (sum {} x) y).value.sqrt

-- The exponent of the least power of two above a positive double.
def exponentAbove (x : Float) : Int :=
  let b := Binary.ofFloat x
  b.exponent + b.mantissa.log2 + 1

-- The length of the vector `(x, y)`.
def length (x y : Float) : Float :=
  let a := x.abs
  let b := y.abs
  let largest := if a < b then b else if 0.0 < a then a else 0.0
  if a.isInf || b.isInf then 1.0 / 0.0
  else if a.isNaN || b.isNaN then a + b
  else if largest == 0.0 then 0.0
  else
    let above := exponentAbove largest
    if above < -1023 then tiny largest a b
    else
      let scale := (1.0 : Float).scaleB (-above)
      scaled (a * scale) (b * scale) / scale

end LayeredDiagram.Hypotenuse
