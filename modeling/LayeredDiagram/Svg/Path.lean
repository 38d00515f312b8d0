import LayeredDiagram.Graph.Geometry
import LayeredDiagram.Numeric.Hypotenuse
import LayeredDiagram.Numeric.Quantity
/-!
Lengths and directions along routes.
-/

namespace LayeredDiagram.Svg

def distance (a b : Point Quantity) : Quantity :=
  (b.x - a.x).onReals Hypotenuse.length (b.y - a.y)

-- The segments of a route.
def segments (points : List (Point Quantity)) : List (Point Quantity × Point Quantity) :=
  points.zip points.tail

def totalLength (points : List (Point Quantity)) : Quantity :=
  Scalar.sum ((segments points).map fun (a, b) => distance a b)

-- The point at some distance along segments; the distance walked before comes first.
def walk (target walked : Quantity) : List (Point Quantity × Point Quantity) → Option (Point Quantity)
  | [] => none
  | (a, b) :: rest =>
    let length := distance a b
    if target ≤ walked + length then
      let t := if 0 < length then (target - walked) / length else .real 0.0
      some ⟨a.x + (b.x - a.x) * t, a.y + (b.y - a.y) * t⟩
    else walk target (walked + length) rest

-- The point halfway along a route; the origin if there is no route.
def midpoint (points : List (Point Quantity)) : Point Quantity :=
  match points with
  | [] => ⟨.real 0.0, .real 0.0⟩
  | first :: _ =>
    let total := totalLength points
    if total ≤ 0 then first
    else (walk (total / 2) (.real 0.0) (segments points)).getD (points.getLast?.getD first)

-- The unit vector from one point to another, downwards if they coincide.
def direction (tail tip : Point Quantity) : Point Quantity :=
  let length := distance tail tip
  if length ≤ 0 then ⟨.real 0.0, .real 1.0⟩
  else ⟨(tip.x - tail.x) / length, (tip.y - tail.y) / length⟩

end LayeredDiagram.Svg
