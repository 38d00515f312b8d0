import LayeredDiagram.Numeric.Scalar
/-!
Points and rectangles of the plane; y grows downwards.
-/

namespace LayeredDiagram

structure Point (α : Type) where
  x : α
  y : α
  deriving DecidableEq, Hashable

-- A rectangle given by its centre and half extents.
structure Box (α : Type) where
  x : α
  y : α
  halfWidth : α
  halfHeight : α
  deriving DecidableEq

-- A rectangle given by its four edges.
structure Bounds (α : Type) where
  left : α
  top : α
  right : α
  bottom : α
  deriving DecidableEq

variable {α : Type} [Scalar α]

namespace Point

def shift (dx dy : α) (p : Point α) : Point α :=
  ⟨p.x + dx, p.y + dy⟩

-- The top left corner of a rectangle with the given centre.
def toCorner (center : Point α) (width height : α) : Point α :=
  ⟨center.x - width / 2, center.y - height / 2⟩

-- The centre of a rectangle with the given top left corner.
def toCenter (corner : Point α) (width height : α) : Point α :=
  ⟨corner.x + width / 2, corner.y + height / 2⟩

end Point

namespace Box

-- The rectangle of a given size around a point.
def around (center : Point α) (width height : α) : Box α :=
  ⟨center.x, center.y, width / 2, height / 2⟩

def hasArea (b : Box α) : Bool :=
  0 < b.halfWidth && 0 < b.halfHeight

end Box

namespace Bounds

def width (b : Bounds α) : α :=
  b.right - b.left

def height (b : Bounds α) : α :=
  b.bottom - b.top

def ofBox (b : Box α) : Bounds α :=
  ⟨b.x - b.halfWidth, b.y - b.halfHeight, b.x + b.halfWidth, b.y + b.halfHeight⟩

def ofPoint (p : Point α) : Bounds α :=
  ⟨p.x, p.y, p.x, p.y⟩

-- The smallest rectangle that holds two others.
def union (a b : Bounds α) : Bounds α :=
  ⟨Scalar.smaller a.left b.left, Scalar.smaller a.top b.top,
    Scalar.larger a.right b.right, Scalar.larger a.bottom b.bottom⟩

-- The smallest rectangle that holds all of a list, if the list is not empty.
def hull? : List (Bounds α) → Option (Bounds α)
  | [] => none
  | b :: bs => some (bs.foldl union b)

end Bounds

end LayeredDiagram
