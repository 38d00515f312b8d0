import LayeredDiagram.Numeric.Rounding
/-!
The exact value of a double, read off its bits, and what is computed from it without error:
rounding to integers and to six decimals, and quotients of integers.
-/

namespace LayeredDiagram

-- The number `± mantissa * 2 ^ exponent`.
structure Binary where
  negative : Bool
  mantissa : Nat
  exponent : Int
  deriving DecidableEq

namespace Binary

-- The least mantissa of a double that is not subnormal: two to the fifty-second.
def leastNormal : Nat :=
  0x10000000000000

-- The value of a finite double. The two largest exponents, those of infinities and of results that
-- are no number, are read as if they went on counting.
def ofFloat (x : Float) : Binary :=
  let bits := x.toBits.toNat
  let negative := bits >>> 63 == 1
  let biased : Nat := (bits >>> 52) % 0x800
  let fraction : Nat := bits % leastNormal
  if biased = 0 then ⟨negative, fraction, -1074⟩
  else ⟨negative, leastNormal + fraction, (biased : Int) - 1075⟩

-- The value as a quotient of an integer and a positive power of two.
def fraction (b : Binary) : Int × Nat :=
  let scaled : Int := ((b.mantissa <<< b.exponent.toNat : Nat) : Int)
  (if b.negative then -scaled else scaled, 1 <<< (-b.exponent).toNat)

def floor (b : Binary) : Int :=
  Rounding.down b.fraction.1 b.fraction.2

def ceil (b : Binary) : Int :=
  Rounding.up b.fraction.1 b.fraction.2

def nearest (b : Binary) : Int :=
  Rounding.halfEven b.fraction.1 b.fraction.2

-- The double nearest to the value rounded to six decimals.
def sixDecimals (b : Binary) : Float :=
  let scaled := Rounding.halfEven (b.fraction.1 * 1000000) b.fraction.2
  let unsigned := Float.ofScientific scaled.natAbs true 6
  if b.negative then -unsigned else unsigned

-- The double nearest to `n * 2 ^ e`, halves to even.
def roundToFloat (n : Nat) (e : Int) : Float :=
  let surplus := n.log2 - 52
  (Float.ofNat (Rounding.halfEven n (1 <<< surplus)).toNat).scaleB (e + surplus)

-- The double nearest to a quotient, halves to even.
def quotient (n : Int) (d : Nat) : Float :=
  -- The shift leaves at least 54 bits; one bit more stands for the remainder.
  let shift := d.log2 + 55 - n.natAbs.log2
  let scaled := n.natAbs <<< shift
  let marked := 2 * (scaled / d) + (if scaled % d = 0 then 0 else 1)
  let unsigned := roundToFloat marked (-(shift : Int) - 1)
  if n < 0 then -unsigned else unsigned

end Binary

end LayeredDiagram
