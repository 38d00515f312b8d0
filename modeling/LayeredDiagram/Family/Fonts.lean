import LayeredDiagram.Graph.Sized
import LayeredDiagram.Text.Width
/-!
Font sizes in pixels and font weights that all families share.
-/

namespace LayeredDiagram

structure Fonts (α : Type) where
  nodeLabelSize : α
  nodeLabelWeight : Int
  edgeLabelSize : α
  edgeLabelWeight : Int
  groupHeaderSize : α
  groupHeaderWeight : Int
  -- Room around the text of an edge label.
  edgeLabelPadX : α
  edgeLabelPadY : α

variable {α : Type} [Scalar α]

namespace Fonts

def standard : Fonts α where
  nodeLabelSize := 13
  nodeLabelWeight := 500
  edgeLabelSize := 11
  edgeLabelWeight := 400
  groupHeaderSize := 12
  groupHeaderWeight := 600
  edgeLabelPadX := 8
  edgeLabelPadY := 6

-- Width of the box around an edge label.
def labelWidth (f : Fonts α) (label : String) : α :=
  Text.estimatedWidth label f.edgeLabelSize f.edgeLabelWeight + f.edgeLabelPadX

def labelHeight (f : Fonts α) : α :=
  f.edgeLabelSize + f.edgeLabelPadY

end Fonts

end LayeredDiagram
