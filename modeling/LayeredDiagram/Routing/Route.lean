import LayeredDiagram.Graph.Geometry
/-!
Routes along the axes. A polyline gets a bend in every slanted segment, loses repeated points and
points on straight stretches, and is cut off at the borders of the boxes that it joins.
-/

namespace LayeredDiagram.Route

variable {α : Type} [Scalar α]

-- Coordinates at most this far apart count as equal.
def tolerance : α := 1e-9

def near (a b : α) : Bool :=
  Scalar.magnitude (a - b) ≤ tolerance

def apart (a b : α) : Bool :=
  tolerance < Scalar.magnitude (a - b)

def same (a b : Point α) : Bool :=
  near a.x b.x && near a.y b.y

-- The bend of a slanted segment: straight down first, or straight across first.
def bend? (verticalFirst : Bool) (a b : Point α) : Option (Point α) :=
  if apart a.x b.x && apart a.y b.y then
    some (if verticalFirst then ⟨a.x, b.y⟩ else ⟨b.x, a.y⟩)
  else none

-- Puts a bend into every slanted segment.
def withBends (verticalFirst : Bool) : List (Point α) → List (Point α)
  | a :: b :: rest =>
    a :: (bend? verticalFirst a b).toList ++ withBends verticalFirst (b :: rest)
  | points => points

-- Drops each point that is the same as the last one kept.
def dropRepeats (kept : Point α) : List (Point α) → List (Point α)
  | [] => [kept]
  | p :: rest => if same kept p then dropRepeats kept rest else kept :: dropRepeats p rest

-- Whether a point lies on a straight stretch along an axis.
def isStraight (a b c : Point α) : Bool :=
  (near a.x b.x && near b.x c.x) || (near a.y b.y && near b.y c.y)

-- Drops each point on a straight stretch between the last one kept and its successor.
def dropStraight (kept : Point α) : List (Point α) → List (Point α)
  | p :: q :: rest =>
    if isStraight kept p q then dropStraight kept (q :: rest) else kept :: dropStraight p (q :: rest)
  | rest => kept :: rest

-- Drops repeated points and points on straight stretches. Of a polyline whose points are all the
-- same the two ends stay.
def simplify : List (Point α) → List (Point α)
  | [] => []
  | first :: rest =>
    match dropRepeats first rest with
    | [p] => if rest.isEmpty then [p] else [first, rest.getLastD first]
    | p :: points => dropStraight p points
    | [] => []

-- Makes every segment of a polyline horizontal or vertical.
def snap (verticalFirst : Bool) (points : List (Point α)) : List (Point α) :=
  if points.length < 2 then points else simplify (withBends verticalFirst points)

-- Whether a point lies inside a box and not near its border.
def inside (b : Box α) (p : Point α) : Bool :=
  Scalar.magnitude (p.x - b.x) < b.halfWidth - tolerance
    && Scalar.magnitude (p.y - b.y) < b.halfHeight - tolerance

-- The side of a box that a movement by `d` leads to.
def border (center halfExtent d : α) : α :=
  if 0 < d then center + halfExtent else center - halfExtent

-- Moves a coordinate that lies next to the crossed side onto it.
def land (value center halfExtent d : α) : α :=
  if apart d 0 && Scalar.magnitude (Scalar.magnitude (value - center) - halfExtent) < 1e-6 then
    border center halfExtent d
  else value

-- The part of a segment inside a box, as far as one axis limits it.
def part (start center halfExtent d : α) (soFar : α) : α :=
  if apart d 0 then Scalar.smaller soFar ((border center halfExtent d - start) / d) else soFar

-- Where a segment from inside a box crosses the border.
def exit (b : Box α) (a c : Point α) : Point α :=
  let dx := c.x - a.x
  let dy := c.y - a.y
  let t := part a.y b.y b.halfHeight dy (part a.x b.x b.halfWidth dx 1)
  let t := Scalar.larger 0 t
  let x := a.x + dx * t
  let y := a.y + dy * t
  ⟨land x b.x b.halfWidth dx, land y b.y b.halfHeight dy⟩

-- Follows a polyline from a point inside a box until it leaves, and starts it at the border. A
-- polyline that never leaves has no such part.
def leave? (b : Box α) : Point α → List (Point α) → Option (List (Point α))
  | _, [] => none
  | last, p :: rest =>
    if inside b p then leave? b p rest
    else
      let e := exit b last p
      let tail := if same e p then rest else p :: rest
      some (e :: if tail.isEmpty then [p] else tail)

-- Starts a polyline at the border of the box that its first point lies in.
def clipStart (b : Box α) : List (Point α) → List (Point α)
  | [] => []
  | p :: rest => if inside b p then (leave? b p rest).getD (p :: rest) else p :: rest

-- Clips the start of a polyline; a missing box, or one without area, leaves it as it is.
def clipStartAt (b : Option (Box α)) (points : List (Point α)) : List (Point α) :=
  match b with
  | some b => if b.hasArea then clipStart b points else points
  | none => points

-- Cuts both ends of a polyline off at the borders of the boxes there.
def clip (source target : Option (Box α)) (points : List (Point α)) : List (Point α) :=
  if points.length < 2 then points
  else (clipStartAt target (clipStartAt source points).reverse).reverse

end LayeredDiagram.Route
