import LayeredDiagram.Text.Blank
import LayeredDiagram.Text.Word
/-!
Reading a line from the left. Each reader takes what it looks for from the start of a text and gives
what follows.
-/

namespace LayeredDiagram.Text

-- A text read, and what follows.
abbrev Reading := List Char × List Char

-- A non-empty run of characters of a class, as long as possible.
def run? (p : Char → Bool) (s : List Char) : Option Reading :=
  let word := s.takeWhile p
  if word.isEmpty then none else some (word, s.dropWhile p)

-- A run of word characters.
def word? (s : List Char) : Option Reading :=
  run? isWord s

-- At least one blank.
def gap? (s : List Char) : Option (List Char) :=
  (run? isBlank s).map (·.2)

-- A text between double quotes.
def quotation? : List Char → Option Reading
  | '"' :: s =>
    match s.dropWhile (· ≠ '"') with
    | _ :: rest => some (s.takeWhile (· ≠ '"'), rest)
    | [] => none
  | _ => none

-- Whether nothing follows but a line end.
def atEnd (s : List Char) : Bool :=
  s.isEmpty || s == ['\n']

end LayeredDiagram.Text
