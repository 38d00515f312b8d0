/-!
Character classes. A class beyond ASCII is a list of code points at which membership changes: a
character belongs to it when an odd number of them is at or below its code point.
-/

namespace LayeredDiagram.Text

-- Membership in the class that starts outside and changes at each of the boundaries.
def inClass (boundaries : Array Nat) (code : Nat) : Bool :=
  boundaries.foldl (fun inside b => if b ≤ code then !inside else inside) false

end LayeredDiagram.Text
