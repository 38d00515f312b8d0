import LayeredDiagram.Data.Value
import LayeredDiagram.Text.Integer
/-!
Colours in hexadecimal notation: `#` with three, six or eight digits; the last two of eight are the
opacity. Channels run from 0 to 255.
-/

namespace LayeredDiagram

inductive ColorError where
  -- A colour with a label is not in hexadecimal notation.
  | notHex (label : String) (value : Value)
  | wrongLength (value : String)
  | badDigits (value : String)

namespace ColorError

def message : ColorError → String
  | notHex label value =>
    s!"Invalid color for {Text.quoted label}: {value.write Value.logStyle}. "
      ++ "Only hex colors (#RGB, #RRGGBB, #RRGGBBAA) are supported."
  | wrongLength value => s!"Invalid hex color: {Text.quoted value}. Expected 3, 6 or 8 hex digits."
  | badDigits value => s!"Invalid hex color: {Text.quoted value}"

end ColorError

structure Channels (β : Type) where
  red : β
  green : β
  blue : β
  -- The opacity, if the colour has one.
  alpha : Option β
  deriving DecidableEq

namespace Color

def isHexDigit (c : Char) : Bool :=
  c.isDigit || ('a' ≤ c && c ≤ 'f') || ('A' ≤ c && c ≤ 'F')

-- Whether a text is `#` with three, six or eight hexadecimal digits. A line end may follow.
def isHex (s : List Char) : Bool :=
  match s with
  | '#' :: rest =>
    let digits := if rest.getLast? = some '\n' then rest.dropLast else rest
    [3, 6, 8].contains digits.length && digits.all isHexDigit
  | _ => false

-- Refuses a value that is no colour in hexadecimal notation.
def validate (label : String) (value : Value) : Except ColorError String :=
  match value with
  | .text s => if isHex s.toList then .ok s else .error (.notHex label value)
  | _ => .error (.notHex label value)

-- Splits a text into pairs of characters.
def pairs : List Char → List (List Char)
  | a :: b :: rest => [a, b] :: pairs rest
  | _ => []

-- The channels of a text. Marks in front are dropped, and three digits are doubled.
def channels (value : String) : Except ColorError (Channels Int) :=
  let digits := value.toList.dropWhile (· == '#')
  let digits := if digits.length = 3 then digits.flatMap fun c => [c, c] else digits
  if digits.length ≠ 6 ∧ digits.length ≠ 8 then .error (.wrongLength value)
  else
    match (pairs digits).mapM (Text.integer? 16) with
    | some [r, g, b] => .ok ⟨r, g, b, none⟩
    | some [r, g, b, a] => .ok ⟨r, g, b, some a⟩
    | _ => .error (.badDigits value)

variable {α : Type} [Scalar α]

-- A channel cut off at its limits and rounded, halves up.
def roundChannel (x : α) : Nat :=
  (Scalar.floor (Scalar.larger 0 (Scalar.smaller 255 x) + 0.5)).toNat

-- The text of a colour; full opacity is left out.
def write (c : Channels α) : String :=
  let shown (x : α) : List Char := Text.hexDigits 2 (roundChannel x)
  let alpha := match c.alpha with
    | some a => if roundChannel a = 255 then [] else shown a
    | none => []
  String.ofList ('#' :: shown c.red ++ shown c.green ++ shown c.blue ++ alpha)

-- The number at a fraction of the way from one integer to another.
def between (t : α) (start stop : Int) : α :=
  (start : α) + t * ((stop - start : Int) : α)

-- Mixes a percentage of one colour into another, channel by channel. A missing opacity counts as
-- full.
def mix (fg bg : String) (percent : α) : Except ColorError String := do
  let f ← channels fg
  let b ← channels bg
  let t := percent / 100
  let alpha := match f.alpha, b.alpha with
    | none, none => none
    | fa, ba => some (between t (ba.getD 255) (fa.getD 255))
  return write
    { red := between t b.red f.red
      green := between t b.green f.green
      blue := between t b.blue f.blue
      alpha }

end Color

end LayeredDiagram
