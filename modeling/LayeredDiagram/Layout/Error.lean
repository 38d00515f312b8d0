import LayeredDiagram.Numeric.Fault
import LayeredDiagram.Text.Printable
/-!
Why a graph has no layout.
-/

namespace LayeredDiagram

inductive LayoutError where
  | duplicateNode (id : String)
  | duplicateGroup (id : String)
  -- The edge at an index has an end that is no node.
  | unknownEndpoint (index : Nat) (source target endpoint : String)
  -- A group lists a member that is no node.
  | unknownMember (group member : String)
  | unsupportedDirection (direction : String)
  -- A size or a coordinate is out of reach of the arithmetic.
  | number (f : NumberFault)
  deriving DecidableEq

namespace LayoutError

-- Whether nodes, edges and groups do not fit together.
def isStructural : LayoutError → Bool
  | unsupportedDirection _ | number _ => false
  | _ => true

def message : LayoutError → String
  | duplicateNode id => s!"Duplicate node id: {Text.quoted id}"
  | duplicateGroup id => s!"Duplicate group id: {Text.quoted id}"
  | unknownEndpoint index source target endpoint =>
    s!"Edge {index} ({source} -> {target}) references unknown node {Text.quoted endpoint}"
  | unknownMember group member =>
    s!"Group {Text.quoted group} references unknown node {Text.quoted member}"
  | unsupportedDirection direction => s!"Unsupported layout direction: {Text.quoted direction}"
  | number f => f.message

end LayoutError

end LayeredDiagram
