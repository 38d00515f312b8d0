import LayeredDiagram.Canvas.Glyph
import LayeredDiagram.Graph.Sized
/-!
Constants of text art. All sizes are in cells.
-/

namespace LayeredDiagram.TextArt

structure Config (α : Type) where
  charset : Charset
  -- Gap between boxes of a rank.
  paddingX : α
  -- Gap between ranks.
  paddingY : α
  groupPadding : α
  -- Rows kept for the label of a group.
  groupHeader : α
  -- Gap between a route and its neighbours.
  edgeSpacing : α
  selfLoop : α
  emptyGroupWidth : α
  emptyGroupHeight : α
  -- Blank cells around the picture.
  margin : α

variable {α : Type} [Scalar α]

namespace Config

def standard : Config α where
  charset := .unicode
  paddingX := 5
  paddingY := 3
  groupPadding := 2
  groupHeader := 1
  edgeSpacing := 2
  selfLoop := 3
  emptyGroupWidth := 12
  emptyGroupHeight := 4
  margin := 1

def spacing (c : Config α) : Spacing α where
  node := c.paddingX
  rank := c.paddingY
  edge := c.edgeSpacing
  groupPadding := c.groupPadding
  groupHeader := c.groupHeader
  emptyGroupWidth := c.emptyGroupWidth
  emptyGroupHeight := c.emptyGroupHeight
  selfLoop := c.selfLoop

def canvasMargin (c : Config α) : Margin α :=
  ⟨c.margin, c.margin⟩

end Config

-- The cell that a coordinate falls into: the nearest one, halves up.
def toCell (x : α) : Int :=
  Scalar.floor (x + 0.5)

end LayeredDiagram.TextArt
