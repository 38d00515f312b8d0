import LayeredDiagram.Numeric.Fault
import LayeredDiagram.Numeric.Scalar
import LayeredDiagram.Numeric.Shortest
/-!
Lengths and coordinates of a drawing. A number given as a whole number stays whole under addition,
subtraction, multiplication and choice of the larger or smaller; any other operation, and any real
operand, gives a real number. The distinction shows when the number is written: `160` or `160.0`.
An operation without result leaves its fault, and so does every operation on one; of two faults the
left one stays.
-/

namespace LayeredDiagram

inductive Quantity where
  | whole (n : Int)
  | real (x : Float)
  | faulty (f : NumberFault)

namespace Quantity

-- Whether every whole number up to this size is a real one.
def isShort (n : Int) : Bool :=
  n.natAbs ≤ 2 * Binary.leastNormal

-- The real number nearest to a whole one.
def nearestReal (n : Int) : Float :=
  if isShort n then Float.ofInt n
  else
    let unsigned := Binary.roundToFloat n.natAbs 0
    if n < 0 then -unsigned else unsigned

def toReal : Quantity → Except NumberFault Float
  | whole n =>
    let x := nearestReal n
    if x.isInf then .error .wholeTooLarge else .ok x
  | real x => .ok x
  | faulty f => .error f

-- The result of an operation on real numbers.
def onReals (op : Float → Float → Float) (a b : Quantity) : Quantity :=
  match a.toReal, b.toReal with
  | .ok x, .ok y => real (op x y)
  | .error f, _ => faulty f
  | _, .error f => faulty f

-- The same number as a real one.
def asReal (q : Quantity) : Quantity :=
  match q.toReal with
  | .ok x => real x
  | .error f => faulty f

-- Applies an operation that keeps whole numbers whole.
def lift (exact : Int → Int → Int) (rounded : Float → Float → Float) : Quantity → Quantity → Quantity
  | whole m, whole n => whole (exact m n)
  | real x, real y => real (rounded x y)
  | a, b => onReals rounded a b

instance : Add Quantity := ⟨lift (· + ·) (· + ·)⟩
instance : Sub Quantity := ⟨lift (· - ·) (· - ·)⟩
instance : Mul Quantity := ⟨lift (· * ·) (· * ·)⟩
-- The quotient is real; that of two whole numbers is rounded only once.
def divide : Quantity → Quantity → Quantity
  | whole m, whole n =>
    let x := Binary.quotient (if n < 0 then -m else m) n.natAbs
    if x.isInf then faulty .quotientTooLarge else real x
  | a, b => onReals (· / ·) a b

instance : Div Quantity := ⟨divide⟩

instance : Neg Quantity where
  neg
    | whole n => whole (-n)
    | real x => real (-x)
    | faulty f => faulty f

-- Whether a number is less than another; a fault is above all numbers.
def less : Quantity → Quantity → Bool
  | whole m, whole n => m < n
  | real x, real y => x < y
  | whole m, real y => if isShort m then Float.ofInt m < y else m < (Binary.ofFloat y).ceil
  | real x, whole n => if isShort n then x < Float.ofInt n else (Binary.ofFloat x).floor < n
  | faulty _, _ => false
  | _, faulty _ => true

def lessOrEqual : Quantity → Quantity → Bool
  | whole m, whole n => m ≤ n
  | real x, real y => x ≤ y
  | whole m, real y => if isShort m then Float.ofInt m ≤ y else m ≤ (Binary.ofFloat y).floor
  | real x, whole n => if isShort n then x ≤ Float.ofInt n else (Binary.ofFloat x).ceil ≤ n
  | faulty _, _ => false
  | _, faulty _ => true

instance : LT Quantity := ⟨fun a b => less a b = true⟩
instance : LE Quantity := ⟨fun a b => lessOrEqual a b = true⟩
instance : DecidableLT Quantity := fun a b => inferInstanceAs (Decidable (less a b = true))
instance : DecidableLE Quantity := fun a b => inferInstanceAs (Decidable (lessOrEqual a b = true))
instance : NatCast Quantity := ⟨fun n => whole n⟩
instance : IntCast Quantity := ⟨whole⟩
instance : OfScientific Quantity := ⟨fun m s e => real (Float.ofScientific m s e)⟩
instance (n : Nat) : OfNat Quantity n := ⟨whole n⟩
instance : Inhabited Quantity := ⟨whole 0⟩

def fault? : Quantity → Option NumberFault
  | faulty f => some f
  | _ => none

-- What keeps a quantity from being rounded to a whole number.
def roundingFault? : Quantity → Option NumberFault
  | whole _ => none
  | real x => if x.isNaN then some .undefinedToWhole else if x.isInf then some .infiniteToWhole else none
  | faulty f => some f

-- Rounds a quantity; where that fails the result is zero.
def rounded (round : Binary → Int) : Quantity → Int
  | whole n => n
  | real x => round (Binary.ofFloat x)
  | faulty _ => 0

def sixDecimals : Quantity → Quantity
  | real x => if x.isFinite then real (Binary.ofFloat x).sixDecimals else real x
  | q => q

instance : Scalar Quantity where
  floor := rounded Binary.floor
  ceil := rounded Binary.ceil
  nearest := rounded Binary.nearest
  sixDecimals := sixDecimals

-- Real numbers are written positionally from `0.0001` up to below `10 ^ 16`, and otherwise with an
-- exponent of at least two digits.
def written : Decimal.Form :=
  { least := -4, limit := 16, exponentDigits := 2 }

-- How results beyond the real numbers are written.
structure Beyond where
  infinity : String := "inf"
  undefined : String := "nan"

-- A whole number in digits, a real number by its shortest decimal. A fault has no written form.
def write (beyond : Beyond) : Quantity → String
  | whole n => toString n
  | real x =>
    if x.isNaN then beyond.undefined
    else if x.isInf then (if x < 0.0 then "-" else "") ++ beyond.infinity
    else (Decimal.shortest x).text written
  | faulty _ => ""

-- The written form in pictures and messages.
def text (q : Quantity) : String :=
  q.write {}

end Quantity

end LayeredDiagram
