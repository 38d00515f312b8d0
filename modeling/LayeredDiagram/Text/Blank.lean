/-!
Blank characters, trimming and words.
-/

namespace LayeredDiagram.Text

-- Whether a character is white space: controls that separate, and the spaces of any width.
def isBlank (c : Char) : Bool :=
  let n := c.toNat
  (0x09 ≤ n && n ≤ 0x0D) || (0x1C ≤ n && n ≤ 0x20) || n == 0x85 || n == 0xA0 || n == 0x1680
    || (0x2000 ≤ n && n ≤ 0x200A) || n == 0x2028 || n == 0x2029 || n == 0x202F || n == 0x205F
    || n == 0x3000

def trimStart (s : List Char) : List Char :=
  s.dropWhile isBlank

def trimEnd (s : List Char) : List Char :=
  (s.reverse.dropWhile isBlank).reverse

-- A text without the blanks at both ends.
def trim (s : List Char) : List Char :=
  trimEnd (trimStart s)

-- The characters up to the first blank, and the words after it.
def wordsFrom : List Char → List Char × List (List Char)
  | [] => ([], [])
  | c :: rest =>
    match wordsFrom rest with
    | (word, more) =>
      if isBlank c then ([], if word.isEmpty then more else word :: more) else (c :: word, more)

-- The non-empty runs of characters that are not blank.
def words (s : List Char) : List (List Char) :=
  match wordsFrom s with
  | (word, more) => if word.isEmpty then more else word :: more

-- Texts joined with a separator between neighbours.
def join (separator : List Char) : List (List Char) → List Char
  | [] => []
  | [s] => s
  | s :: rest => s ++ separator ++ join separator rest

-- The parts of a text between separators; there is one more part than there are separators.
def splitOn (separator : Char) : List Char → List (List Char)
  | [] => [[]]
  | c :: rest =>
    if c = separator then [] :: splitOn separator rest
    else
      match splitOn separator rest with
      | part :: parts => (c :: part) :: parts
      | [] => [[c]]

-- The text after a given beginning.
def after? : List Char → List Char → Option (List Char)
  | [], s => some s
  | p :: ps, c :: s => if p = c then after? ps s else none
  | _ :: _, [] => none

-- The text in front of a given ending.
def before? (ending s : List Char) : Option (List Char) :=
  (after? ending.reverse s.reverse).map List.reverse

end LayeredDiagram.Text
