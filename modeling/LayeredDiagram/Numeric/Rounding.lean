/-!
Rounding of exact quotients to integers: down, up, and to the nearest with halves going to the
even neighbour.
-/

namespace LayeredDiagram.Rounding

-- The largest integer that is at most `n / d`.
def down (n : Int) (d : Nat) : Int :=
  n / (d : Int)

-- The smallest integer that is at least `n / d`.
def up (n : Int) (d : Nat) : Int :=
  -(down (-n) d)

-- The integer nearest to `n / d`; exactly halfway the even one of the two neighbours.
def halfEven (n : Int) (d : Nat) : Int :=
  let q := n / (d : Int)
  let twice := 2 * (n % (d : Int))
  if twice < d then q
  else if (d : Int) < twice then q + 1
  else if q % 2 = 0 then q
  else q + 1

theorem down_one (n : Int) : down n 1 = n := by
  simp [down]

theorem up_one (n : Int) : up n 1 = n := by
  simp [up, down_one]

theorem halfEven_one (n : Int) : halfEven n 1 = n := by
  simp [halfEven]

example : halfEven 5 2 = 2 ∧ halfEven 7 2 = 4 ∧ halfEven (-5) 2 = -2 ∧ up (-5) 2 = -2 := by decide

end LayeredDiagram.Rounding
