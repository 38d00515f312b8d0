import LayeredDiagram.Graph.Placed
import LayeredDiagram.Proofs.Decimals
/-!
Rectangles over exact arithmetic: inside each other, beside each other, and framed with padding and a header.
-/

namespace LayeredDiagram.Bounds

variable {a b c r r' : Bounds Rat} {bs : List (Bounds Rat)} {dx dy pad header : Rat}

attribute [ext] Bounds

-- One rectangle lies inside another.
structure Within (b r : Bounds Rat) : Prop where
  left : r.left ≤ b.left
  top : r.top ≤ b.top
  right : b.right ≤ r.right
  bottom : b.bottom ≤ r.bottom

-- Points on the border are not in the interior.
def Interior (b : Bounds Rat) (p : Point Rat) : Prop :=
  b.left < p.x ∧ p.x < b.right ∧ b.top < p.y ∧ p.y < b.bottom

-- One of two rectangles lies beside the other, or one of them above the other.
def Apart (b c : Bounds Rat) : Prop :=
  b.right ≤ c.left ∨ c.right ≤ b.left ∨ b.bottom ≤ c.top ∨ c.bottom ≤ b.top

-- One rectangle holds another with padding on all sides and with a header on top.
structure Frames (pad header : Rat) (r b : Bounds Rat) : Prop where
  left : r.left + pad ≤ b.left
  top : r.top + (pad + header) ≤ b.top
  right : b.right + pad ≤ r.right
  bottom : b.bottom + pad ≤ r.bottom

theorem Within.refl (b : Bounds Rat) : b.Within b :=
  ⟨le_rfl, le_rfl, le_rfl, le_rfl⟩

namespace Apart

theorem of_within (h : r.Apart r') (hb : b.Within r) (hc : c.Within r') : b.Apart c := by
  rcases h with h | h | h | h
  · exact .inl (hb.right.trans (h.trans hc.left))
  · exact .inr (.inl (hc.right.trans (h.trans hb.left)))
  · exact .inr (.inr (.inl (hb.bottom.trans (h.trans hc.top))))
  · exact .inr (.inr (.inr (hc.bottom.trans (h.trans hb.top))))

-- Rectangles apart from each other share borders at most.
theorem not_interior (h : b.Apart c) (p : Point Rat) : ¬(b.Interior p ∧ c.Interior p) := by
  rintro ⟨⟨hbl, hbr, hbt, hbb⟩, hcl, hcr, hct, hcb⟩
  rcases h with h | h | h | h <;> linarith

end Apart

-- Moves a rectangle.
def shift (dx dy : Rat) (b : Bounds Rat) : Bounds Rat :=
  ⟨b.left + dx, b.top + dy, b.right + dx, b.bottom + dy⟩

theorem apart_shift_iff : (b.shift dx dy).Apart (c.shift dx dy) ↔ b.Apart c := by
  simp only [Apart, shift, add_le_add_iff_right]

theorem Frames.shift (h : Frames pad header r b) : Frames pad header (r.shift dx dy) (b.shift dx dy) := by
  obtain ⟨hl, ht, hr, hb⟩ := h
  constructor <;> simp only [Bounds.shift] <;> linarith

theorem Within.shift (h : b.Within r) : (b.shift dx dy).Within (r.shift dx dy) := by
  obtain ⟨hl, ht, hr, hb⟩ := h
  constructor <;> simp only [Bounds.shift] <;> linarith

theorem Frames.of_within (h : Frames pad header r b) (hr : r.Within r') : Frames pad header r' b := by
  obtain ⟨hl, ht, hright, hb⟩ := h
  obtain ⟨hl', ht', hright', hb'⟩ := hr
  constructor <;> linarith

theorem Frames.within (h : Frames pad header r b) (hp : 0 ≤ pad) (hh : 0 ≤ header) : b.Within r := by
  obtain ⟨hl, ht, hr, hb⟩ := h
  constructor <;> linarith

theorem Within.frames (h : b.Within c) (hf : Frames pad header r c) : Frames pad header r b := by
  obtain ⟨hl, ht, hr, hb⟩ := h
  obtain ⟨hl', ht', hr', hb'⟩ := hf
  constructor <;> linarith

theorem shift_ofBox_around (p : Point Rat) (width height : Rat) :
    (ofBox (Box.around p width height)).shift dx dy = ofBox (Box.around (p.shift dx dy) width height) := by
  ext <;> simp only [ofBox, Box.around, Point.shift, shift] <;> ring

theorem union_within_iff : (union b c).Within r ↔ b.Within r ∧ c.Within r := by
  constructor
  · rintro ⟨hl, ht, hr, hb⟩
    simp only [union, Scalar.larger_eq_max, Scalar.smaller_eq_min, le_min_iff, max_le_iff] at hl ht hr hb
    exact ⟨⟨hl.left, ht.left, hr.left, hb.left⟩, ⟨hl.right, ht.right, hr.right, hb.right⟩⟩
  · rintro ⟨h, h'⟩
    constructor <;> simp only [union, Scalar.larger_eq_max, Scalar.smaller_eq_min, le_min_iff, max_le_iff]
    exacts [⟨h.left, h'.left⟩, ⟨h.top, h'.top⟩, ⟨h.right, h'.right⟩, ⟨h.bottom, h'.bottom⟩]

theorem foldl_union_within_iff : (bs.foldl union b).Within r ↔ b.Within r ∧ ∀ c ∈ bs, c.Within r := by
  induction bs generalizing b
  case nil => simp
  case cons c bs hi => simp [hi, union_within_iff, and_assoc]

-- The hull is the least of the rectangles around a list.
theorem within_iff_of_hull? (h : hull? bs = some b) : b.Within r ↔ ∀ c ∈ bs, c.Within r := by
  cases bs
  case nil => simp [hull?] at h
  case cons c bs =>
    simp only [hull?, Option.some.injEq] at h
    rw [← h, foldl_union_within_iff, List.forall_mem_cons]

theorem exists_hull? (h : bs ≠ []) : ∃ b, hull? bs = some b := by
  cases bs
  case nil => exact absurd rfl h
  case cons b bs => exact ⟨_, rfl⟩

end LayeredDiagram.Bounds

namespace LayeredDiagram

theorem PlacedNode.bounds_shift (dx dy : Rat) (n : PlacedNode Rat) :
    (n.shift dx dy).bounds = n.bounds.shift dx dy := by
  ext <;> simp only [bounds, right, bottom, shift, Bounds.shift] <;> ring

end LayeredDiagram
