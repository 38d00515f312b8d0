/-!
Line ends of all kinds. Files know two of them, the line feed and the carriage return, which together
end a single line. Printed text also breaks at the vertical tab and the form feed, at the separators
of files, groups and records, and at the next-line, line-separator and paragraph-separator characters.
-/

namespace LayeredDiagram.Text

-- Whether a character ends a line of printed text.
def isLineEnd (c : Char) : Bool :=
  let n := c.toNat
  (0x0A ≤ n && n ≤ 0x0D) || (0x1C ≤ n && n ≤ 0x1E) || n == 0x85 || n == 0x2028 || n == 0x2029

-- The lines of a printed text, without their ends. The last line may do without an end, and after
-- the last end there is no further line.
def printedLines : List Char → List (List Char)
  | [] => []
  | '\r' :: '\n' :: rest => [] :: printedLines rest
  | c :: rest =>
    if isLineEnd c then [] :: printedLines rest
    else
      match printedLines rest with
      | line :: more => (c :: line) :: more
      | [] => [[c]]

-- A text whose lines all end in a line feed: carriage returns, alone or before a line feed, are
-- line ends as well.
def unifyLineEnds : List Char → List Char
  | '\r' :: '\n' :: rest => '\n' :: unifyLineEnds rest
  | '\r' :: rest => '\n' :: unifyLineEnds rest
  | c :: rest => c :: unifyLineEnds rest
  | [] => []

end LayeredDiagram.Text
