import LayeredDiagram.Numeric.Quantity
import LayeredDiagram.Text.Printable
/-!
Values of records: numbers, texts, lists and records, and their written form on one line.
-/

namespace LayeredDiagram

inductive Value where
  | null
  | bool (b : Bool)
  | number (q : Quantity)
  | text (s : String)
  | list (vs : List Value)
  | record (fields : List (String × Value))
  deriving Inhabited

namespace Value

def nat (n : Nat) : Value :=
  number (.whole n)

-- A text that may be missing.
def ofOption : Option String → Value
  | some s => text s
  | none => null

-- The value of a field; a value that is no record has no fields.
def field (key : String) : Value → Value
  | record fields => (fields.lookup key).getD null
  | _ => null

-- The fields of a record; a value that is no record has none.
def fields : Value → List (String × Value)
  | record fields => fields
  | _ => []

-- The number of a value; yes counts as one and no as zero.
def number? : Value → Option Quantity
  | number q => some q
  | bool b => some (.whole b.toNat)
  | _ => none

def text? : Value → Option String
  | text s => some s
  | _ => none

-- The entries of a list; a value that is no list has none.
def entries : Value → List Value
  | list vs => vs
  | _ => []

-- Whether a value says something: not missing, not false, not zero and not empty.
def isPresent : Value → Bool
  | null => false
  | bool b => b
  | number q => !(q ≤ 0 && 0 ≤ q)
  | text s => s ≠ ""
  | list vs => !vs.isEmpty
  | record fields => !fields.isEmpty

-- The first value if it says something, and otherwise the second.
def orElse (a b : Value) : Value :=
  if a.isPresent then a else b

def isText (s : String) : Value → Bool
  | text t => s == t
  | _ => false

-- One character between double quotes: quotes, backslashes and controls are escaped.
def escape (c : Char) : List Char :=
  if c = '"' ∨ c = '\\' then ['\\', c]
  else if c = '\n' then ['\\', 'n']
  else if c = '\r' then ['\\', 'r']
  else if c = '\t' then ['\\', 't']
  else if c = '\x08' then ['\\', 'b']
  else if c = '\x0c' then ['\\', 'f']
  else if c.toNat < 0x20 then '\\' :: 'u' :: Text.hexDigits 4 c.toNat
  else [c]

-- A text between double quotes.
def quote (s : String) : String :=
  String.ofList ('"' :: s.toList.flatMap escape ++ ['"'])

-- Where a written form differs from another.
structure Style where
  null : String
  yes : String
  no : String
  quote : String → String
  beyond : Quantity.Beyond := {}

-- The style of data files.
def dataStyle : Style :=
  { null := "null", yes := "true", no := "false", quote, beyond := ⟨"Infinity", "NaN"⟩ }

-- The style of log messages.
def logStyle : Style :=
  { null := "None", yes := "True", no := "False", quote := Text.quoted }

mutual

-- The written form, with a space after each comma and colon.
def write (style : Style) : Value → String
  | null => style.null
  | bool b => if b then style.yes else style.no
  | number q => q.write style.beyond
  | text s => style.quote s
  | list vs => "[" ++ ", ".intercalate (writeAll style vs) ++ "]"
  | record fields => "\x7b" ++ ", ".intercalate (writeFields style fields) ++ "\x7d"

def writeAll (style : Style) : List Value → List String
  | [] => []
  | v :: vs => write style v :: writeAll style vs

def writeFields (style : Style) : List (String × Value) → List String
  | [] => []
  | (key, v) :: rest => (style.quote key ++ ": " ++ write style v) :: writeFields style rest

end

end Value

end LayeredDiagram
