import LayeredDiagram.Family.Summary
import LayeredDiagram.Theme.Color
/-!
What is reported while a diagram text is turned into a picture, and why there may be no picture.
-/

namespace LayeredDiagram

-- Why a text has no picture.
inductive Failure where
  | parse (e : ParseError)
  | layout (e : LayoutError)
  | color (e : ColorError)

def Failure.message : Failure → String
  | .parse e => e.message
  | .layout e => e.message
  | .color e => e.message

inductive Event where
  -- A part of the text is left out.
  | notice (f : Family) (n : Notice)
  | parsed (d : Diagram)
  -- A layout in pixels is finished.
  | laidOut (nodes edges : Nat) (width height : Quantity)
  -- A picture of some rows of text is finished.
  | drawn (rows : Nat)

namespace Event

def severity : Event → Severity
  | notice _ n => n.severity
  | _ => .debug

def source : Event → String
  | notice .c4 _ => "archlayout.c4"
  | notice .archimate _ => "archlayout.archimate"
  | notice .classDiagram _ => "archlayout.class_diagram"
  | _ => "archlayout.generator"

def message : Event → String
  | notice _ n => n.message
  | parsed d =>
    let summary := Value.write Value.logStyle (.record d.summary)
    s!"Parsed {d.family.name} diagram: " ++ summary
  | laidOut nodes edges width height =>
    s!"Laid out {nodes} nodes and {edges} edges on a "
      ++ s!"{Scalar.nearest width}x{Scalar.nearest height} canvas"
  | drawn rows => s!"Rendered {rows} rows of text art"

-- The remark on a left out part, if the event is one.
def notice? : Event → Option Notice
  | notice _ n => some n
  | _ => none

def ofReading (d : Diagram) : List Event :=
  d.readingNotices.map (notice d.family) ++ [parsed d]

def ofSizing (d : Diagram) : List Event :=
  d.sizingNotices.map (notice d.family)

end Event

end LayeredDiagram
