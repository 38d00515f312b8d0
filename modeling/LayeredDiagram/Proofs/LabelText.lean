import LayeredDiagram.Proofs.Cells
import LayeredDiagram.Proofs.Overlap
import LayeredDiagram.Proofs.Staircase
/-!
Labels of connectors in cells. A text takes one row of cells, from the one where it starts, and a label is centred in
the room that is kept for it, with a blank on either side that makes up for what is lost by rounding.
-/

namespace LayeredDiagram

open LayeredDiagram.Group

variable {g : SizedGraph Rat} {place : String → Nat} {s : Solution Rat} {n : SizedNode Rat} {e : SizedEdge Rat}
variable {i j : Item Rat} {k : Nat}

section Writing

namespace Canvas

variable {canvas canvas₁ canvas₂ canvas₃ : Canvas} {P Q : Cell → Prop} {z : Cell} {text reason source : String}

-- What is written between two states of a canvas is written to cells of which something holds.
def Writes (P : Cell → Prop) (canvas₁ canvas₂ : Canvas) : Prop :=
  ∃ written, canvas₂.history = canvas₁.history.map (written ++ ·) ∧ ∀ w ∈ written, P ⟨w.x, w.y⟩

namespace Writes

theorem refl (canvas : Canvas) : Writes P canvas canvas :=
  ⟨[], by cases canvas.history <;> rfl, by simp⟩

theorem trans (h₁ : Writes P canvas₁ canvas₂) (h₂ : Writes P canvas₂ canvas₃) : Writes P canvas₁ canvas₃ := by
  obtain ⟨first, heq₁, hfirst⟩ := h₁
  obtain ⟨second, heq₂, hsecond⟩ := h₂
  refine ⟨second ++ first, ?_, List.forall_mem_append.mpr ⟨hsecond, hfirst⟩⟩
  rw [heq₂, heq₁, Option.map_map]
  simp [Function.comp_def]

theorem mono (h : Writes P canvas₁ canvas₂) (hPQ : ∀ z, P z → Q z) : Writes Q canvas₁ canvas₂ := by
  obtain ⟨written, heq, hP⟩ := h
  exact ⟨written, heq, fun w hw => hPQ _ (hP w hw)⟩

end Writes

theorem writes_set (hz : P z) : Writes P canvas (canvas.set z text reason source) := by
  unfold set
  split
  case isTrue => exact ⟨[canvas.placement z text reason source], rfl, by simpa [placement] using hz⟩
  case isFalse => exact .refl canvas

-- The columns of a text, from the one where it starts.
structure InText (start : Cell) (width : Nat) (z : Cell) : Prop where
  row : z.y = start.y
  left : start.x ≤ z.x
  right : z.x < start.x + width

-- By induction on the characters, each of which takes its columns and leaves the rest to those after it.
theorem writes_drawChars (chars : List Char) : Writes
    (InText z (chars.foldr (fun char total => Text.columns char + total) 0)) canvas
    (canvas.drawChars z reason chars) := by
  induction chars generalizing canvas z
  case nil => exact .refl canvas
  case cons char chars hi =>
    rw [List.foldr_cons]
    have rest (start : Cell) (hx : start.x = z.x + Text.columns char) (hy : start.y = z.y) (canvas : Canvas) : Writes
        (InText z (Text.columns char + chars.foldr (fun char total => Text.columns char + total) 0)) canvas
        (canvas.drawChars start reason chars) := by
      refine hi.mono fun y ⟨hrow, hleft, hright⟩ => ⟨hrow.trans hy, ?_, ?_⟩ <;> omega
    have first : Writes
        (InText z (Text.columns char + chars.foldr (fun char total => Text.columns char + total) 0)) canvas
        (canvas.set z char.toString reason "Canvas.draw_text") := by
      have := Text.columns_pos char
      exact writes_set ⟨rfl, le_rfl, by omega⟩
    rw [drawChars]
    split
    case isTrue hw =>
      have htwo : Text.columns char = 2 := by simp [Text.columns, hw]
      refine (first.trans (writes_set (z := ⟨z.x + 1, z.y⟩) ⟨rfl, ?_, ?_⟩)).trans (rest ⟨z.x + 2, z.y⟩ ?_ rfl _)
      · simp
      · simp only [htwo]
        omega
      · simp [htwo]
    case isFalse hw => exact first.trans (rest ⟨z.x + 1, z.y⟩ (by simp [Text.columns, hw]) rfl _)

theorem writes_drawText (canvas : Canvas) (z : Cell) (text reason : String) :
    Writes (InText z (Text.displayWidth text)) canvas (canvas.drawText z text reason) :=
  writes_drawChars text.toList

end Canvas

end Writing

section Labels

namespace Solved

variable (hs : Solved g place s)
include hs

-- Different items are beside each other, or the gap between ranks is between them.
theorem room_beside_or_below (hi : i ∈ s.stock.items) (hj : j ∈ s.stock.items) (hij : i ≠ j) :
    i.rightEdge s.x ≤ j.leftEdge s.x ∨ j.rightEdge s.x ≤ i.leftEdge s.x ∨
      (s.room i).bottom + g.spacing.rank ≤ (s.room j).top ∨ (s.room j).bottom + g.spacing.rank ≤ (s.room i).top := by
  have below {i j : Item Rat} (hi : i ∈ s.stock.items) (hj : j ∈ s.stock.items) (hr : i.rank < j.rank) :
      (s.room i).bottom + g.spacing.rank ≤ (s.room j).top := by
    have hbottom := hs.room_le_bandBottom hi
    have htop := hs.bandTop_le_room hj
    have hgap := hs.bandBottom_add_rank_le hi hj hr
    linarith
  rcases Nat.lt_trichotomy i.rank j.rank with hr | hr | hr
  · exact .inr (.inr (.inl (below hi hj hr)))
  · cases hs.spaced.rightEdge_le_leftEdge_or hs.arranged hi hj hr hij
    case inl h => exact .inl h
    case inr h => exact .inr (.inl h)
  · exact .inr (.inr (.inr (below hj hi hr)))

-- The anchor of a label between different nodes is as far away from every node as the size of the label demands.
theorem label_apart {anchor : Point Rat} (he : g.edges[k]? = some e) (hne : e.source ≠ e.target)
    (ha : (s.labelAnchors g.nodes g.edges g.spacing.selfLoop).lookup k = some anchor) (hn : n ∈ g.nodes) :
    anchor.x + e.labelWidth / 2 ≤ (g.nodeBounds s n).left ∨
      (g.nodeBounds s n).right + e.labelWidth / 2 ≤ anchor.x ∨
      anchor.y + e.labelHeight / 2 + g.spacing.rank ≤ (g.nodeBounds s n).top ∨
      (g.nodeBounds s n).bottom + g.spacing.rank + e.labelHeight / 2 ≤ anchor.y := by
  rcases hs.labelAnchors_cases he (mem_of_lookup ha) with ⟨ch, hc, rfl, i, hi, rfl⟩ | ⟨l, hl, rfl, _⟩
  case inr =>
    obtain ⟨_, hloop, _⟩ := Loop.edge_spec (hs.loops_eq ▸ hl) he
    exact absurd (beq_iff_eq.mp hloop) hne
  case inl =>
    obtain ⟨him, hslot, _, hw, hh⟩ := hs.label_of_chain hc hi he
    obtain ⟨hil, hit, hir, hib⟩ := hs.around_within_room him
    obtain ⟨hnl, hnt, hnr, hnb⟩ := hs.nodeBounds_within_room hn
    have hij : i ≠ g.itemOf n := fun h => by simp [h, SizedGraph.itemOf] at hslot
    have hor := hs.room_beside_or_below him (hs.itemOf_mem hn) hij
    simp only [Solution.itemBounds, Bounds.ofBox, Box.around, Solution.room] at hil hit hir hib hnl hnt hnr hnb hor
    rw [← hw, ← hh]
    refine hor.imp (fun _ => by linarith) fun hor => hor.imp (fun _ => by linarith) fun hor => ?_
    exact hor.imp (fun _ => by linarith) fun _ => by linarith

end Solved

namespace TextArt

open CellRect

-- A text of one row, centred at a point of which a box keeps away by the width of the text and a blank on either side.
theorem not_contains_of_inText {anchor : Point Rat} {box : Bounds Rat} {width : Nat} {z : Cell}
    (h : anchor.x + (width + 2) / 2 ≤ box.left ∨ box.right + (width + 2) / 2 ≤ anchor.x ∨ anchor.y + 1 ≤ box.top ∨
      box.bottom ≤ anchor.y)
    (hz : Canvas.InText ⟨toCell anchor.x - ((width / 2 : Nat) : Int), toCell anchor.y⟩ width z) :
    ¬(ofBounds box).contains z := by
  obtain ⟨hrow, hleft, hright⟩ := hz
  simp only at hrow hleft hright
  have hle : width / 2 * 2 ≤ width := Nat.div_mul_le_self width 2
  have hlt : width < width / 2 * 2 + 2 := by omega
  generalize width / 2 = half at hleft hright hle hlt
  have hhalf : (half : Rat) + 1 ≤ (width + 2) / 2 := by
    have : ((half * 2 : Nat) : Rat) ≤ width := by exact_mod_cast hle
    push_cast at this
    linarith
  rw [contains_ofBounds_iff]
  rintro ⟨⟨hbl, hbr⟩, hbt, hbb⟩
  rcases h with h | h | h | h
  · have := toCell_add_le (x := anchor.x) (y := box.left) (n := half + 1) (by push_cast; linarith)
    omega
  · have := toCell_add_le (x := box.right) (y := anchor.x) (n := half + 1) (by push_cast; linarith)
    omega
  · have := toCell_add_le (n := 1) (by exact_mod_cast h)
    omega
  · have := toCell_mono h
    omega

end TextArt

end Labels

end LayeredDiagram
