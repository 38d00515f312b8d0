import LayeredDiagram.Proofs.Rectangles
import LayeredDiagram.TextArt.Draw
import Mathlib.Data.Rat.Floor
/-!
Boxes in cells. Sizes of boxes, paddings and headers are whole numbers of cells, and moving by whole numbers commutes
with rounding to cells. So boxes that are apart cover different cells, and what is framed with padding stays strictly
inside the frame, though corners lie between cells.
-/

namespace LayeredDiagram.TextArt

open LayeredDiagram.Group

section Rounding

variable {x y : Rat} {n : Int}

theorem toCell_mono (h : x ≤ y) : toCell x ≤ toCell y :=
  Int.floor_le_floor (add_le_add_left h _)

theorem toCell_add_intCast (x : Rat) (n : Int) : toCell (x + n) = toCell x + n := by
  change ⌊x + n + 0.5⌋ = ⌊x + 0.5⌋ + n
  rw [add_right_comm, Int.floor_add_intCast]

-- Whole distances are kept.
theorem toCell_add_le (h : x + n ≤ y) : toCell x + n ≤ toCell y :=
  toCell_add_intCast x n ▸ toCell_mono h

theorem toCell_zero : toCell (0 : Rat) = 0 := by
  decide +kernel

end Rounding

namespace CellRect

variable {b c r : Bounds Rat} {q : CellRect} {d : PlacedNode Rat} {p : Cell} {pad header w h : Int}

theorem contains_iff : q.contains p ↔ (q.x ≤ p.x ∧ p.x < q.x + q.width) ∧ q.y ≤ p.y ∧ p.y < q.y + q.height := by
  simp [contains, and_assoc]

-- The cells from the rounded left and top edges up to the rounded right and bottom edges.
def ofBounds (b : Bounds Rat) : CellRect :=
  ⟨toCell b.left, toCell b.top, toCell b.right - toCell b.left, toCell b.bottom - toCell b.top⟩

theorem ofNode_eq (hw : d.width = w) (hh : d.height = h) : ofNode d = ofBounds d.bounds := by
  simp only [ofNode, ofBounds, PlacedNode.bounds, PlacedNode.right, PlacedNode.bottom, hw, hh, Scalar.nearest_intCast,
    toCell_add_intCast, add_sub_cancel_left]

theorem ofGroup_eq (g : PlacedGroup Rat) : ofGroup g = ofBounds g.bounds :=
  rfl

theorem contains_ofBounds_iff : (ofBounds b).contains p ↔
    (toCell b.left ≤ p.x ∧ p.x < toCell b.right) ∧ toCell b.top ≤ p.y ∧ p.y < toCell b.bottom := by
  simp only [contains_iff, ofBounds, add_sub_cancel]

theorem not_contains_of_apart (h : b.Apart c) (p : Cell) : ¬((ofBounds b).contains p ∧ (ofBounds c).contains p) := by
  rw [contains_ofBounds_iff, contains_ofBounds_iff]
  rintro ⟨⟨⟨hbl, hbr⟩, hbt, hbb⟩, ⟨hcl, hcr⟩, hct, hcb⟩
  rcases h with h | h | h | h <;> have := toCell_mono h <;> omega

-- One rectangle lies inside another and touches none of its outermost cells.
structure Encloses (r q : CellRect) : Prop where
  left : r.x < q.x
  top : r.y < q.y
  right : q.x + q.width < r.x + r.width
  bottom : q.y + q.height < r.y + r.height

theorem encloses_of_frames (h : Bounds.Frames pad header r b) (hp : 0 < pad) (hh : 0 ≤ header) :
    (ofBounds r).Encloses (ofBounds b) := by
  have htop : r.top + ((pad + header : Int) : Rat) ≤ b.top := by
    have := h.top
    push_cast
    linarith
  have hl := toCell_add_le h.left
  have ht := toCell_add_le htop
  have hr := toCell_add_le h.right
  have hb := toCell_add_le h.bottom
  constructor <;> simp only [ofBounds] <;> omega

end CellRect

end LayeredDiagram.TextArt
