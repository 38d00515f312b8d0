import LayeredDiagram.Text.Blank
import LayeredDiagram.Text.Word
/-!
Reading integers: blanks around, one sign, single underscores between digits, and the decimal digits
of any script.
-/

namespace LayeredDiagram.Text

-- The value of a digit in a base up to 36.
def digit? (base : Nat) (c : Char) : Option Nat :=
  let value := match decimal? c with
    | some d => some d
    | none =>
      if 'a' ≤ c && c ≤ 'z' then some (c.toNat - 'a'.toNat + 10)
      else if 'A' ≤ c && c ≤ 'Z' then some (c.toNat - 'A'.toNat + 10)
      else none
  value.filter (· < base)

-- Reads digits with single underscores between them; the value of those before comes first.
def digitsFrom? (base : Nat) : Nat → List Char → Option Nat
  | value, [] => some value
  | value, '_' :: c :: rest => do
    let d ← digit? base c
    digitsFrom? base (value * base + d) rest
  | value, c :: rest => do
    let d ← digit? base c
    digitsFrom? base (value * base + d) rest

def unsigned? (base : Nat) : List Char → Option Nat
  | [] => none
  | c :: rest => do
    let d ← digit? base c
    digitsFrom? base d rest

-- Digits with at most one sign in front.
def signed? (base : Nat) : List Char → Option Int
  | '+' :: rest => (unsigned? base rest).map Int.ofNat
  | '-' :: rest => (unsigned? base rest).map fun n => -(n : Int)
  | s => (unsigned? base s).map Int.ofNat

-- Whether a character may stand around a number: a blank other than the four separators of files,
-- groups, records and units.
def isPadding (c : Char) : Bool :=
  isBlank c && (c.toNat < 0x1C || 0x1F < c.toNat)

-- A text without the padding at both ends.
def unpadded (s : List Char) : List Char :=
  ((s.dropWhile isPadding).reverse.dropWhile isPadding).reverse

-- The integer written in a base.
def integer? (base : Nat) (s : List Char) : Option Int :=
  signed? base (unpadded s)

end LayeredDiagram.Text
