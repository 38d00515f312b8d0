import LayeredDiagram.Text.Blank
/-!
The lines of a diagram text. Blank lines and lines that start with `%%` carry no meaning.
-/

namespace LayeredDiagram.Text

-- A line with the blanks at both ends cut off, unless it is blank or a comment.
def meaningful? (line : List Char) : Option (List Char) :=
  let s := trim line
  if s.isEmpty || "%%".toList.isPrefixOf s then none else some s

-- The lines that carry meaning, trimmed.
def meaningfulLines (text : String) : List (List Char) :=
  (splitOn '\n' text.toList).filterMap meaningful?

-- A meaningful line together with whether its first character is a blank.
structure Line where
  content : List Char
  isIndented : Bool

-- The lines that carry meaning after the first such line.
def bodyLines (text : String) : List Line :=
  let lines := (splitOn '\n' text.toList).filterMap fun raw =>
    (meaningful? raw).map fun content =>
      { content, isIndented := match raw with
          | c :: _ => isBlank c
          | [] => false : Line }
  lines.drop 1

end LayeredDiagram.Text
