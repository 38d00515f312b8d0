import LayeredDiagram.Proofs.WideCharacters
import LayeredDiagram.Render.Picture
/-!
Recorded drawing. Whether writes are recorded changes nothing about what is drawn, and the writes that are recorded,
made once more in their order on a blank canvas, give the picture. All of drawing consists of single writes, so that
this has to be shown for one write, and for what the parts of a connector look up before they write.
-/

namespace LayeredDiagram

namespace Canvas

variable {b c : Canvas} {f g : Canvas → Canvas} {p : Cell} {text reason source : String} {w : Placement}
variable {l : List Placement}

-- The canvas without what was recorded.
def unrecorded (c : Canvas) : Canvas :=
  { c with history := none }

-- Makes a recorded write once more.
def redo (c : Canvas) (w : Placement) : Canvas :=
  c.set ⟨w.x, w.y⟩ w.text w.reason w.source

-- Writes that, when they are made one after the other, are all on the canvas and name what they replace.
def Tells : Canvas → List Placement → Prop
  | _, [] => True
  | c, w :: rest => c.contains ⟨w.x, w.y⟩ ∧ w.previous = c.get ⟨w.x, w.y⟩ ∧ Tells (c.redo w) rest

theorem tells_concat : c.Tells (l ++ [w]) ↔ c.Tells l ∧ (l.foldl redo c).contains ⟨w.x, w.y⟩ ∧
    w.previous = (l.foldl redo c).get ⟨w.x, w.y⟩ := by
  induction l generalizing c
  case nil => simp [Tells]
  case cons v l hi => simp [Tells, hi, and_assoc]

theorem unrecorded_set : (c.set p text reason source).unrecorded = c.unrecorded.set p text reason source := by
  by_cases h : c.contains p
  case pos =>
    have hu : c.unrecorded.contains p := h
    rw [set, set, dif_pos ((contains_iff _ p).mp h), dif_pos ((contains_iff _ p).mp hu)]
    rfl
  case neg =>
    have hu : ¬c.unrecorded.contains p := h
    rw [set, set, dif_neg ((contains_iff _ p).not.mp h), dif_neg ((contains_iff _ p).not.mp hu)]

-- A canvas that was drawn with a record of all writes since it was blank.
structure Recounts (b c : Canvas) : Prop where
  recorded : c.history.isSome
  tells : b.Tells c.placements
  redone : c.placements.foldl redo b = c.unrecorded

-- A write adds what it finds and writes to the record, one outside of the canvas nothing.
theorem Recounts.set (h : b.Recounts c) : b.Recounts (c.set p text reason source) := by
  by_cases hp : c.contains p
  case neg => rwa [Canvas.set, dif_neg ((c.contains_iff p).not.mp hp)]
  case pos =>
    have hw : (c.set p text reason source).placements = c.placements ++ [c.placement p text reason source] := by
      obtain ⟨w, hw⟩ := Option.isSome_iff_exists.mp h.recorded
      rw [Canvas.set, dif_pos ((c.contains_iff p).mp hp)]
      simp [placements, hw]
    constructor
    case recorded =>
      rw [Canvas.set, dif_pos ((c.contains_iff p).mp hp)]
      simp [h.recorded]
    case tells =>
      rw [hw, tells_concat, h.redone]
      exact ⟨h.tells, hp, rfl⟩
    case redone =>
      rw [hw, List.foldl_append, h.redone, unrecorded_set]
      rfl

-- Drawing of which nothing but the record depends on being recorded, and all of which is recorded.
structure Faithful (f : Canvas → Canvas) : Prop where
  unrecorded : ∀ c : Canvas, (f c).unrecorded = f c.unrecorded
  recounts : ∀ b c : Canvas, b.Recounts c → b.Recounts (f c)

namespace Faithful

theorem id : Faithful fun c => c :=
  ⟨fun _ => rfl, fun _ _ h => h⟩

theorem comp (hg : Faithful g) (hf : Faithful f) : Faithful fun c => g (f c) where
  unrecorded c := by rw [hg.unrecorded, hf.unrecorded]
  recounts b c h := hg.recounts b _ (hf.recounts b c h)

theorem foldl {β : Type} {f : Canvas → β → Canvas} (l : List β) (h : ∀ x ∈ l, Faithful (f · x)) :
    Faithful fun c => l.foldl f c := by
  induction l
  case nil => exact id
  case cons x l hi =>
    exact comp (hi fun y hy => h y (List.mem_cons_of_mem _ hy)) (h x List.mem_cons_self)

theorem set (p : Cell) (text reason source : String) : Faithful (·.set p text reason source) :=
  ⟨fun _ => unrecorded_set, fun _ _ h => h.set⟩

theorem setGlyph (p : Cell) (g : Glyph) (reason source : String) : Faithful (·.setGlyph p g reason source) :=
  ⟨fun _ => unrecorded_set, fun _ _ h => h.set⟩

-- By induction on the text.
theorem drawChars (p : Cell) (reason : String) (chars : List Char) : Faithful (·.drawChars p reason chars) := by
  induction chars generalizing p
  case nil => exact id
  case cons ch rest hi =>
    simp only [Canvas.drawChars]
    split
    case isTrue => exact comp (hi _) (comp (set ..) (set ..))
    case isFalse => exact comp (hi _) (set ..)

theorem drawText (p : Cell) (content reason : String) : Faithful (·.drawText p content reason) :=
  drawChars ..

-- What is looked up before a line is drawn is not recorded.
theorem connect (p : Cell) (d : Directions) (dashed : Bool) : Faithful (·.connect p d dashed) where
  unrecorded c := by
    have hdirections : c.unrecorded.directions? p = c.directions? p := rfl
    have hget : c.unrecorded.get p = c.get p := rfl
    simp only [Canvas.connect, connect?, hdirections, hget]
    split
    case h_1 old _ =>
      cases Glyph.ofDirections? (d.union old)
      case none => rfl
      case some g => exact (setGlyph ..).unrecorded c
    case h_2 =>
      split
      case isFalse => rfl
      case isTrue =>
        cases Glyph.ofDirections? d
        case none => rfl
        case some g => exact (setGlyph ..).unrecorded c
  recounts b c h := by
    rcases c.connect_cases p d dashed with hc | ⟨_, g, reason, source, hc⟩
    · rwa [hc]
    · rw [hc]
      exact (setGlyph ..).recounts b c h

end Faithful

end Canvas

namespace Canvas

end Canvas

namespace TextArt

open Canvas

variable {α : Type} [Scalar α]

namespace Drawing

end Drawing

end TextArt

namespace Settings

open TextArt

end Settings

end LayeredDiagram
