import LayeredDiagram.Numeric.Binary
/-!
The shortest decimal that reads back as a given double. For one, two, three, ... digits the two
neighbours of the value on that decimal grid are tested; the first grid with a neighbour inside
the interval of numbers that round to the double wins, and of two such neighbours the nearer.
-/

namespace LayeredDiagram

-- The number `± coefficient * 10 ^ exponent`.
structure Decimal where
  negative : Bool
  coefficient : Nat
  exponent : Int
  deriving DecidableEq

namespace Decimal

-- Drops trailing zeros of the coefficient, at most `fuel` many.
def normalize : Nat → Decimal → Decimal
  | 0, d => d
  | fuel + 1, d =>
    if d.coefficient ≠ 0 ∧ d.coefficient % 10 = 0 then
      normalize fuel { d with coefficient := d.coefficient / 10, exponent := d.exponent + 1 }
    else d

-- An interval of positive rationals around a value, over one denominator.
structure Interval where
  value : Nat
  low : Nat
  high : Nat
  -- Whether the two ends belong to the interval.
  closed : Bool
  denominator : Nat

namespace Interval

-- The numbers that round to `mantissa * 2 ^ exponent`. Below a power of two the gap is half as
-- wide.
def around (mantissa : Nat) (exponent : Int) : Interval :=
  let up := 1 <<< (exponent - 2).toNat
  let narrow := mantissa = Binary.leastNormal ∧ exponent ≠ -1074
  { value := 4 * mantissa * up
    low := (4 * mantissa - if narrow then 1 else 2) * up
    high := (4 * mantissa + 2) * up
    closed := mantissa % 2 == 0
    denominator := 1 <<< (2 - exponent).toNat }

-- The interval measured in units of `10 ^ place`.
def scale (i : Interval) (place : Int) : Interval :=
  let up := Nat.pow 10 (-place).toNat
  { i with
    value := i.value * up
    low := i.low * up
    high := i.high * up
    denominator := i.denominator * Nat.pow 10 place.toNat }

def holds (i : Interval) (n : Nat) : Bool :=
  let scaled := n * i.denominator
  if i.closed then i.low ≤ scaled && scaled ≤ i.high else i.low < scaled && scaled < i.high

-- The integer of the interval next to its value, if one of the value's two neighbours is in it.
def integer? (i : Interval) : Option Nat :=
  let below := i.value / i.denominator
  let above := below + 1
  match i.holds below, i.holds above with
  | true, true =>
    let twice := 2 * (i.value % i.denominator)
    if twice < i.denominator ∨ twice = i.denominator ∧ below % 2 = 0 then some below else some above
  | true, false => some below
  | false, true => some above
  | false, false => none

-- The number of digits before the decimal point (negative for leading zeros after it).
def magnitude (i : Interval) : Int :=
  let bits : Int := (i.value.log2 : Int) - i.denominator.log2
  let guess := bits * 30103 / 100000 - 1
  let candidates := (List.range 5).map fun (k : Nat) => guess + (k : Int)
  (candidates.find? fun e => (i.scale e).value < (i.scale e).denominator).getD (guess + 4)

end Interval

-- The shortest decimal that reads back as `x`.
def shortest (x : Float) : Decimal :=
  let b := Binary.ofFloat x
  if b.mantissa = 0 then ⟨b.negative, 0, 0⟩ else
  let interval := Interval.around b.mantissa b.exponent
  let places := interval.magnitude
  let found := (List.range 17).findSome? fun (k : Nat) =>
    let place := places - ((k : Int) + 1)
    ((interval.scale place).integer?).map fun n => (⟨b.negative, n, place⟩ : Decimal)
  match found with
  | some d => d.normalize 20
  | none => ⟨b.negative, 0, 0⟩

-- Where positional notation is used for a number, and how the rest is written.
structure Form where
  -- The least decimal exponent that is written positionally.
  least : Int
  -- The first decimal exponent that is not.
  limit : Int
  -- The least number of digits of a written exponent.
  exponentDigits : Nat

-- Digits of a number, with zeros in front up to a width.
def padded (width n : Nat) : String :=
  let digits := toString n
  String.ofList (List.replicate (width - digits.length) '0') ++ digits

-- The digits of a decimal: positional with at least one place after the point, or with an exponent.
def text (form : Form) (d : Decimal) : String :=
  let digits := (toString d.coefficient).toList
  let count := digits.length
  let exponent : Int := d.exponent + count - 1
  let unsigned : List Char :=
    if d.coefficient = 0 then ['0', '.', '0']
    else if form.least ≤ exponent ∧ exponent < form.limit then
      if exponent < 0 then
        ['0', '.'] ++ List.replicate (-exponent - 1).toNat '0' ++ digits
      else
        let whole := exponent.toNat + 1
        if count ≤ whole then digits ++ List.replicate (whole - count) '0' ++ ['.', '0']
        else digits.take whole ++ '.' :: digits.drop whole
    else
      let lead := digits.take 1 ++ (if count = 1 then [] else '.' :: digits.drop 1)
      let sign := if exponent < 0 then '-' else '+'
      lead ++ 'e' :: sign :: (padded form.exponentDigits exponent.natAbs).toList
  String.ofList (if d.negative then '-' :: unsigned else unsigned)

end Decimal

end LayeredDiagram
