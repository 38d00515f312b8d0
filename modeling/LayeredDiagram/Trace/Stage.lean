import LayeredDiagram.Data.Value
import LayeredDiagram.Text.Shorten
/-!
Stages of the way from a diagram text to a picture.
-/

namespace LayeredDiagram

-- What was known after one stage.
structure Stage where
  name : String
  -- Values that sum up the stage.
  data : List (String × Value) := []
  -- The rows drawn so far, for stages that draw.
  canvas : Option (List String) := none

namespace Stage

-- Columns that a value may take.
def valueWidth : Nat := 100

-- Rows of a canvas that are shown.
def shownRows : Nat := 15

-- The rows, if there are any.
def canvasRows? (s : Stage) : Option (List String) :=
  s.canvas.filter fun rows => !rows.isEmpty

def dataLine (entry : String × Value) : String :=
  "  " ++ entry.1 ++ " = " ++ Text.shorten valueWidth (entry.2.write Value.dataStyle)

def canvasLines (rows : List String) : List String :=
  let shown := rows.take shownRows
  s!"  canvas ({shown.length} of {rows.length} rows):" :: shown.map fun row => "    |" ++ row ++ "|"

-- The name, the values and the first rows, line by line.
def describe (s : Stage) : String :=
  let rows := match s.canvasRows? with
    | some rows => canvasLines rows
    | none => []
  "\n".intercalate (s!"[{s.name}]" :: s.data.map dataLine ++ rows)

end Stage

end LayeredDiagram
