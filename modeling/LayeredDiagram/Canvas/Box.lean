import LayeredDiagram.Canvas.Basic
/-!
Frames, and boxes whose text is split into sections.
-/

namespace LayeredDiagram

-- Text lines of a box, section by section.
abbrev Sections := List (List String)

namespace Sections

-- Rows of one section; one without lines takes a row as well.
def sectionRows (s : List String) : Nat :=
  max s.length 1

def textWidth (s : Sections) : Nat :=
  (s.flatten.map Text.displayWidth).foldl max 0

-- Columns of the box, with some blank columns on either side of the text.
def boxWidth (padding : Int) (s : Sections) : Int :=
  s.textWidth + 2 * padding + 2

-- Rows of the box: a divider stands between sections.
def boxHeight (s : Sections) : Nat :=
  s.foldr (fun rows total => sectionRows rows + total) 0 + (s.length - 1) + 2

end Sections

structure FrameStyle where
  horizontal : Glyph
  vertical : Glyph
  topLeft : Glyph
  topRight : Glyph
  bottomLeft : Glyph
  bottomRight : Glyph

namespace FrameStyle

def solid : FrameStyle :=
  ⟨.horizontal, .vertical, .topLeft, .topRight, .bottomLeft, .bottomRight⟩

def dashed : FrameStyle :=
  ⟨.dashHorizontal, .dashVertical, .dashCorner, .dashCorner, .dashCorner, .dashCorner⟩

end FrameStyle

namespace Canvas

-- The integers from one number up to below another.
def between (start stop : Int) : List Int :=
  (List.range (stop - start).toNat).map fun (k : Nat) => start + (k : Int)

def frameSource : String := "BoxRenderer.draw_frame"

-- Draws the outline of a rectangle; one that is thinner than two cells has none.
def drawFrame (c : Canvas) (p : Cell) (width height : Int) (dashed : Bool) : Canvas :=
  if width < 2 ∨ height < 2 then c else
  let style := if dashed then FrameStyle.dashed else FrameStyle.solid
  let right := p.x + width - 1
  let bottom := p.y + height - 1
  let c := (between (p.x + 1) right).foldl (fun c x =>
    (c.setGlyph ⟨x, p.y⟩ style.horizontal "frame" frameSource).setGlyph ⟨x, bottom⟩
      style.horizontal "frame" frameSource) c
  let c := (between (p.y + 1) bottom).foldl (fun c y =>
    (c.setGlyph ⟨p.x, y⟩ style.vertical "frame" frameSource).setGlyph ⟨right, y⟩
      style.vertical "frame" frameSource) c
  let c := c.setGlyph p style.topLeft "frame_corner" frameSource
  let c := c.setGlyph ⟨right, p.y⟩ style.topRight "frame_corner" frameSource
  let c := c.setGlyph ⟨p.x, bottom⟩ style.bottomLeft "frame_corner" frameSource
  c.setGlyph ⟨right, bottom⟩ style.bottomRight "frame_corner" frameSource

-- Draws a line in the middle of a row of a box.
def drawBoxLine (c : Canvas) (p : Cell) (width : Int) (line : String) : Canvas :=
  c.drawText ⟨p.x + 1 + (width - 2 - Text.displayWidth line) / 2, p.y⟩ line "box_text"

-- Draws lines on successive rows of a box.
def drawBoxLines (c : Canvas) (p : Cell) (width : Int) : List String → Canvas
  | [] => c
  | line :: rest => drawBoxLines (c.drawBoxLine p width line) ⟨p.x, p.y + 1⟩ width rest

-- Draws the divider between two sections.
def drawDivider (c : Canvas) (p : Cell) (width : Int) : Canvas :=
  let put (c : Canvas) (x : Int) (g : Glyph) : Canvas :=
    c.setGlyph ⟨x, p.y⟩ g "separator" "BoxRenderer.draw_box"
  let c := put c p.x .teeRight
  let c := (between (p.x + 1) (p.x + width - 1)).foldl (fun c x => put c x .horizontal) c
  put c (p.x + width - 1) .teeLeft

-- Draws sections below one another, with dividers between them.
def drawSections (c : Canvas) (p : Cell) (width : Int) : Sections → Canvas
  | [] => c
  | [s] => c.drawBoxLines p width s
  | s :: rest =>
    let divider : Cell := ⟨p.x, p.y + Sections.sectionRows s⟩
    drawSections ((c.drawBoxLines p width s).drawDivider divider width) ⟨p.x, divider.y + 1⟩ width rest

-- Draws a box of a given width with the text of its sections in the middle.
def drawBox (c : Canvas) (p : Cell) (width : Int) (s : Sections) : Canvas :=
  (c.drawFrame p width s.boxHeight false).drawSections ⟨p.x, p.y + 1⟩ width s

end Canvas

end LayeredDiagram
