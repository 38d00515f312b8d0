import LayeredDiagram.Text.Printable
/-!
Remarks about parts of a diagram text that are left out.
-/

namespace LayeredDiagram

inductive Severity where
  | debug
  | warning
  deriving DecidableEq

inductive Notice where
  -- A second element has the id of an earlier one.
  | duplicateElement (id : String)
  -- A relationship has an end that is not declared.
  | droppedRelationship (source target : String)
  -- A relationship of some type has an end that is not declared.
  | droppedTyped (type source target : String)
  -- A line of a class diagram has no meaning.
  | skippedLine (line : String)
  deriving DecidableEq

namespace Notice

def severity : Notice → Severity
  | skippedLine _ => .debug
  | _ => .warning

def message : Notice → String
  | duplicateElement id => s!"Ignoring duplicate element alias {Text.quoted id}"
  | droppedRelationship source target =>
    s!"Dropping relationship {source} -> {target}: unknown element"
  | droppedTyped type source target =>
    s!"Dropping {type} relationship {source} -> {target}: unknown element"
  | skippedLine line => s!"Skipping unrecognised class diagram line: {line}"

end Notice

end LayeredDiagram
