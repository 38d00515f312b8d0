import LayeredDiagram.Svg.Document
import LayeredDiagram.Text.LineEnd
/-!
Shapes and texts as elements.
-/

namespace LayeredDiagram.Svg

def number (name : String) (q : Quantity) : Attribute :=
  (name, q.text)

-- How the outline of a shape is drawn.
structure Stroke where
  color : String
  width : Quantity
  dash : Option String := none

def Stroke.attributes (s : Stroke) : List Attribute :=
  [("stroke", s.color), number "stroke-width" s.width]
    ++ (s.dash.map fun d => ("stroke-dasharray", d)).toList

-- A rectangle; round corners have a radius.
def rectangle (corner : Point Quantity) (width height : Quantity) (radius : Option Quantity)
    (fill : String) (stroke : Option Stroke) : Element :=
  let round := match radius with
    | some r => [number "rx" r, number "ry" r]
    | none => []
  .shape "rect" <|
    [number "x" corner.x, number "y" corner.y, number "width" width, number "height" height]
    ++ round ++ [("fill", fill)] ++ (stroke.map Stroke.attributes).getD []

def circle (center : Point Quantity) (radius : Quantity) (fill : String) (stroke : Option Stroke) :
    Element :=
  .shape "circle" <|
    [number "cx" center.x, number "cy" center.y, number "r" radius, ("fill", fill)]
    ++ (stroke.map Stroke.attributes).getD []

-- The steps of a path through points.
def pathSteps (points : List (Point Quantity)) (closed : Bool) : String :=
  let place (p : Point Quantity) : String := p.x.text ++ "," ++ p.y.text
  let steps := match points with
    | [] => []
    | p :: rest => ("M" ++ place p) :: rest.map fun q => "L" ++ place q
  " ".intercalate (if closed then steps ++ ["Z"] else steps)

-- Straight lines through points.
def lines (points : List (Point Quantity)) (closed : Bool) (attributes : List Attribute) : Element :=
  .shape "path" (("d", pathSteps points closed) :: attributes)

structure TextStyle where
  size : Quantity
  fill : String
  -- Without fonts of its own a text gets those around it.
  family : Option String
  weight : Int := 400
  anchor : String := "middle"
  extra : List Attribute := []

-- A text whose anchor and middle line are at a point. A text with a line feed is set line by line,
-- each below the one before; without one it is written as it is.
def label (style : TextStyle) (content : String) (place : Point Quantity) : Element :=
  let attributes :=
    [number "x" place.x, number "y" place.y, number "font-size" style.size, ("fill", style.fill)]
      ++ (style.family.map fun f => ("font-family", f)).toList
      ++ [("font-weight", toString style.weight), ("text-anchor", style.anchor),
        ("dominant-baseline", "middle")] ++ style.extra
  if content.toList.contains '\n' then
    .paragraph attributes <| (Text.printedLines content.toList).zipIdx.map fun (line, index) =>
      ([number "x" place.x, ("dy", if index = 0 then "0em" else "1em")], String.ofList line)
  else .text attributes content

end LayeredDiagram.Svg
