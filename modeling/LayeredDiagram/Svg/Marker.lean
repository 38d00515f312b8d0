import LayeredDiagram.Svg.Path
import LayeredDiagram.Svg.Shape
import LayeredDiagram.Theme.Palette
/-!
Markers at the ends of connectors.
-/

namespace LayeredDiagram.Svg

inductive Marker where
  | filledArrow
  | openArrow
  | openTriangle
  | filledDiamond
  | openDiamond
  | circle
  deriving DecidableEq

namespace Marker

-- Length along the line.
def length : Marker → Quantity
  | filledArrow => 10
  | openArrow | circle => 8
  | _ => 12

-- Width across the line.
def width : Marker → Quantity
  | filledArrow | circle => 8
  | openArrow => 6
  | _ => 10

-- The corners of an arrow head: one end of its base, its tip, and the other end.
def headCorners (m : Marker) (tip u : Point Quantity) : List (Point Quantity) :=
  let half := m.width / 2
  let base : Point Quantity := ⟨tip.x - u.x * m.length, tip.y - u.y * m.length⟩
  let across : Point Quantity := ⟨-u.y, u.x⟩
  [⟨base.x + across.x * half, base.y + across.y * half⟩, tip,
    ⟨base.x - across.x * half, base.y - across.y * half⟩]

def diamondCorners (m : Marker) (tip u : Point Quantity) : List (Point Quantity) :=
  let half := m.width / 2
  let middle : Point Quantity := ⟨tip.x - u.x * m.length / 2, tip.y - u.y * m.length / 2⟩
  let across : Point Quantity := ⟨-u.y, u.x⟩
  [tip, ⟨middle.x + across.x * half, middle.y + across.y * half⟩,
    ⟨tip.x - u.x * m.length, tip.y - u.y * m.length⟩,
    ⟨middle.x - across.x * half, middle.y - across.y * half⟩]

-- A marker whose tip is the end of a line.
def draw (colors : DrawingColors) (tail tip : Point Quantity) (m : Marker) : Element :=
  let u := direction tail tip
  let outline (width : Quantity) : List Attribute := Stroke.attributes ⟨colors.line, width, none⟩
  match m with
  | circle =>
    let radius := m.width / 2 - 1
    Svg.circle ⟨tip.x - u.x * (radius + 1), tip.y - u.y * (radius + 1)⟩ radius colors.line none
  | filledDiamond =>
    lines (m.diamondCorners tip u) true (("fill", colors.line) :: outline 0.75)
  | openDiamond =>
    lines (m.diamondCorners tip u) true (("fill", colors.bg) :: outline 0.75)
  | openArrow => lines (m.headCorners tip u) false (("fill", "none") :: outline 1.25)
  | openTriangle => lines (m.headCorners tip u) true (("fill", colors.bg) :: outline 1.0)
  | filledArrow => lines (m.headCorners tip u) true [("fill", colors.arrow), ("stroke", "none")]

end Marker

-- The markers at the two ends of a route.
def endMarkers (colors : DrawingColors) (points : List (Point Quantity)) (start stop : Option Marker) :
    List Element :=
  let mark (m : Option Marker) : List (Point Quantity) → List Element
    | tip :: tail :: _ => (m.map (Marker.draw colors tail tip)).toList
    | _ => []
  mark start points ++ mark stop points.reverse

end LayeredDiagram.Svg
