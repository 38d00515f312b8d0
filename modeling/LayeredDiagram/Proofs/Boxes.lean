import LayeredDiagram.Proofs.LabelText
import LayeredDiagram.Proofs.Merging
/-!
Boxes with text. The rows of a box are the lines of its sections and the dividers between them, and a section without
lines has a vacant row. A box that is as wide as its text asks for touches no cell outside of its rectangle, and every
row shows what belongs there between the two sides.
-/

namespace LayeredDiagram

open LayeredDiagram.TextArt

-- A row of a box, without its sides.
inductive BoxRow where
  | line (content : String)
  | divider
  | vacant

namespace BoxRow

def content? : BoxRow → Option String
  | line content => some content
  | _ => none

-- The glyph of the row on the left side of the box.
def leftGlyph : BoxRow → Glyph
  | divider => .teeRight
  | _ => .vertical

def rightGlyph : BoxRow → Glyph
  | divider => .teeLeft
  | _ => .vertical

-- A line fits between the sides of a box, with blank columns on either side.
def Fits (width padding : Int) (row : BoxRow) : Prop :=
  ∀ content, row = line content → Text.displayWidth content + 2 * padding + 2 ≤ width

end BoxRow

theorem Text.displayWidth_ofList_cons (ch : Char) (chars : List Char) :
    displayWidth (String.ofList (ch :: chars)) = columns ch + displayWidth (String.ofList chars) := by
  simp [displayWidth]

namespace Sections

variable {rows : List String} {s : Sections} {row : BoxRow} {content : String}

def sectionLines (rows : List String) : List BoxRow :=
  if rows.isEmpty then [.vacant] else rows.map .line

-- The rows between the top and the bottom of a box.
def boxRows : Sections → List BoxRow
  | [] => []
  | [rows] => sectionLines rows
  | rows :: rest => sectionLines rows ++ .divider :: boxRows rest

theorem length_sectionLines (rows : List String) : (sectionLines rows).length = sectionRows rows := by
  cases rows <;> simp [sectionLines, sectionRows]

theorem length_boxRows (h : s ≠ []) : s.boxRows.length + 2 = s.boxHeight := by
  induction s
  case nil => exact absurd rfl h
  case cons rows rest ih =>
    cases rest
    case nil => simp [boxRows, boxHeight, length_sectionLines]
    case cons next more =>
      have hrest := ih (List.cons_ne_nil _ _)
      simp only [boxRows, boxHeight, List.length_append, List.length_cons, length_sectionLines,
        List.foldr_cons] at hrest ⊢
      omega

theorem filterMap_sectionLines (rows : List String) : (sectionLines rows).filterMap BoxRow.content? = rows := by
  cases rows
  case nil => rfl
  case cons => simp [sectionLines, List.filterMap_map, Function.comp_def, BoxRow.content?]

-- All lines have a row of their own, in their order.
theorem filterMap_boxRows (s : Sections) : s.boxRows.filterMap BoxRow.content? = s.flatten := by
  fun_induction boxRows s
  case case1 => rfl
  case case2 rows => simp [filterMap_sectionLines]
  case case3 rows rest hne ih =>
    rw [List.filterMap_append, filterMap_sectionLines, List.filterMap_cons_none rfl, ih, List.flatten_cons]

theorem le_textWidth (h : content ∈ s.flatten) : Text.displayWidth content ≤ s.textWidth := by
  have hmem : Text.displayWidth content ∈ s.flatten.map Text.displayWidth := List.mem_map_of_mem h
  obtain ⟨widest, hmax⟩ := Option.isSome_iff_exists.mp (List.isSome_max?_of_mem hmem)
  have hle : Text.displayWidth content ≤ widest := (List.max?_le_iff hmax).mp le_rfl _ hmem
  rw [textWidth, List.foldl_max, hmax]
  exact hle.trans (le_max_right 0 widest)

theorem fits_boxWidth (padding : Int) (h : row ∈ s.boxRows) : row.Fits (s.boxWidth padding) padding := by
  rintro content rfl
  have hmem : content ∈ s.flatten := filterMap_boxRows s ▸ List.mem_filterMap.mpr ⟨_, h, rfl⟩
  have hle := le_textWidth hmem
  rw [boxWidth]
  omega

end Sections

namespace Canvas

variable {c c₁ c₂ c₃ : Canvas} {P Q : Cell → Prop} {p q : Cell} {text reason source : String} {chars : List Char}
variable {ms : List Mark} {g : Glyph} {width height padding : Int} {row : BoxRow} {rows : List BoxRow} {k : Nat}

section Changes

-- Between two states of a canvas, nothing but cells of which something holds has changed or been written to.
structure Changes (P : Cell → Prop) (c₁ c₂ : Canvas) : Prop where
  size : c₂.size = c₁.size
  charset : c₂.charset = c₁.charset
  writes : Writes P c₁ c₂
  get : ∀ q, ¬P q → c₂.get q = c₁.get q

namespace Changes

theorem refl (c : Canvas) : Changes P c c :=
  ⟨rfl, rfl, .refl c, fun _ _ => rfl⟩

theorem trans (h₁ : Changes P c₁ c₂) (h₂ : Changes P c₂ c₃) : Changes P c₁ c₃ where
  size := h₂.size.trans h₁.size
  charset := h₂.charset.trans h₁.charset
  writes := h₁.writes.trans h₂.writes
  get q hq := (h₂.get q hq).trans (h₁.get q hq)

theorem mono (h : Changes P c₁ c₂) (hPQ : ∀ q, P q → Q q) : Changes Q c₁ c₂ where
  size := h.size
  charset := h.charset
  writes := h.writes.mono hPQ
  get q hq := h.get q fun hP => hq (hPQ q hP)

theorem contains (h : Changes P c₁ c₂) (q : Cell) : c₂.contains q = c₁.contains q :=
  contains_of_size h.size

end Changes

theorem changes_set (hp : P p) : Changes P c (c.set p text reason source) where
  size := size_set
  charset := charset_set ..
  writes := writes_set hp
  get q hq := by
    have hne : ¬(q = p ∧ c.contains p) := fun h => hq (h.left ▸ hp)
    rw [get_set, if_neg hne]

theorem changes_marks (h : ∀ m ∈ ms, P m.cell) : Changes P c ((Stroke.marks ms).draw c) := by
  rw [Stroke.draw]
  induction ms generalizing c
  case nil => exact .refl c
  case cons m ms ih =>
    obtain ⟨hm, hms⟩ := List.forall_mem_cons.mp h
    exact (changes_set hm).trans (ih hms)

-- Where all marks agree on the glyph of a cell, the cell shows it.
theorem get_marks (hq : c.contains q) (hmem : ∃ m ∈ ms, m.cell = q) (hall : ∀ m ∈ ms, m.cell = q → m.glyph = g) :
    ((Stroke.marks ms).draw c).get q = c.charset.text g := by
  induction ms using List.reverseRecOn
  case nil => simp at hmem
  case append_singleton ms m ih =>
    obtain ⟨hms, hm⟩ := List.forall_mem_append.mp hall
    have hdraw : (Stroke.marks (ms ++ [m])).draw c =
        ((Stroke.marks ms).draw c).setGlyph m.cell m.glyph m.reason m.source := List.foldl_concat ..
    have hold : Changes (fun _ => True) c ((Stroke.marks ms).draw c) := changes_marks fun _ _ => trivial
    rw [hdraw, setGlyph, get_set, hold.charset, hold.contains]
    by_cases hcell : q = m.cell
    case pos => rw [if_pos ⟨hcell, hcell ▸ hq⟩, hm m (List.mem_singleton_self m) hcell.symm]
    case neg =>
      rw [if_neg fun h => hcell h.left]
      refine ih ?_ hms
      obtain ⟨m', hm', hcell'⟩ := hmem
      rcases List.mem_append.mp hm' with hm' | hm'
      · exact ⟨m', hm', hcell'⟩
      · exact absurd (List.mem_singleton.mp hm' ▸ hcell'.symm) hcell

theorem get_drawChars_of_not_inText (h : ¬InText p (Text.displayWidth (String.ofList chars)) q) :
    (c.drawChars p reason chars).get q = c.get q := by
  induction chars generalizing c p
  case nil => rfl
  case cons ch rest ih =>
    have hpos := Text.columns_pos ch
    rw [Text.displayWidth_ofList_cons] at h
    have hself : q ≠ p := by
      rintro rfl
      exact h ⟨rfl, le_rfl, by omega⟩
    have hrest (start : Cell) (hx : start.x = p.x + Text.columns ch) (hy : start.y = p.y) :
        ¬InText start (Text.displayWidth (String.ofList rest)) q :=
      fun ⟨hrow, hleft, hright⟩ => h ⟨hrow.trans hy, by omega, by omega⟩
    rw [drawChars]
    split
    case isTrue hw =>
      have htwo : Text.columns ch = 2 := by simp [Text.columns, hw]
      have hnext : q ≠ ⟨p.x + 1, p.y⟩ := by
        rintro rfl
        exact h ⟨rfl, by simp, by simp only; omega⟩
      rw [ih (hrest ⟨p.x + 2, p.y⟩ (by simp [htwo]) rfl), get_set, get_set]
      simp [hself, hnext]
    case isFalse hw =>
      rw [ih (hrest ⟨p.x + 1, p.y⟩ (by simp [Text.columns, hw]) rfl), get_set]
      simp [hself]

theorem changes_drawText (c : Canvas) (p : Cell) (text reason : String) :
    Changes (InText p (Text.displayWidth text)) c (c.drawText p text reason) where
  size := size_drawChars
  charset := charset_drawChars
  writes := writes_drawText c p text reason
  get _ hq := get_drawChars_of_not_inText (by rwa [String.ofList_toList])

end Changes

section Reading

-- What a part of a row shows. The second cell of a wide character adds nothing.
def read (c : Canvas) (row start stop : Int) : String :=
  String.join ((between start stop).map fun x => c.get ⟨x, row⟩)

theorem read_cons {row start stop : Int} (h : start < stop) :
    c.read row start stop = c.get ⟨start, row⟩ ++ c.read row (start + 1) stop := by
  have hbetween : between start stop = start :: between (start + 1) stop := by
    have hlength : (stop - start).toNat = (stop - (start + 1)).toNat + 1 := by omega
    rw [between, between, hlength, List.range_succ_eq_map, List.map_cons, List.map_map, Nat.cast_zero, add_zero]
    exact congrArg _ (List.map_congr_left fun k _ => by simp only [Function.comp_apply]; omega)
  simp [read, hbetween]

theorem read_congr {row : Int} (h : ∀ x, c₁.get ⟨x, row⟩ = c₂.get ⟨x, row⟩) {start stop : Int} :
    c₁.read row start stop = c₂.read row start stop := by
  simp only [read, h]

-- By induction on the text.
theorem read_drawChars {stop : Int} (hstop : stop = p.x + Text.displayWidth (String.ofList chars))
    (h : ∀ q, InText p (Text.displayWidth (String.ofList chars)) q → c.contains q) :
    (c.drawChars p reason chars).read p.y p.x stop = String.ofList chars := by
  induction chars generalizing c p
  case nil => simp [hstop, read, between, Text.displayWidth]
  case cons ch rest ih =>
    have hpos := Text.columns_pos ch
    rw [Text.displayWidth_ofList_cons] at h hstop
    have hp : c.contains p := h p ⟨rfl, le_rfl, by omega⟩
    have hrest (start : Cell) (hx : start.x = p.x + Text.columns ch) (hy : start.y = p.y) (q : Cell)
        (hq : InText start (Text.displayWidth (String.ofList rest)) q) : c.contains q := by
      obtain ⟨hrow, hleft, hright⟩ := hq
      exact h q ⟨hrow.trans hy, by omega, by omega⟩
    have hcons : String.singleton ch ++ String.ofList rest = String.ofList (ch :: rest) := by simp
    rw [drawChars, read_cons (by omega), ← hcons]
    split
    case isTrue hw =>
      have htwo : Text.columns ch = 2 := by simp [Text.columns, hw]
      have hnext : c.contains ⟨p.x + 1, p.y⟩ := h _ ⟨rfl, by simp, by simp only; omega⟩
      have hne : p ≠ ⟨p.x + 1, p.y⟩ := (Cell.next_ne p).symm
      have hx : p.x + 1 + 1 = p.x + 2 := by ring
      rw [read_cons (by omega), get_drawChars_of_lt (by simp), get_drawChars_of_lt (by simp), get_set, get_set, get_set,
        contains_set, hx, ih (p := ⟨p.x + 2, p.y⟩) (by simp only; omega)]
      · simp [hne, hp, hnext]
      · intro q hq
        rw [contains_set, contains_set]
        exact hrest ⟨p.x + 2, p.y⟩ (by simp [htwo]) rfl q hq
    case isFalse hw =>
      have hone : Text.columns ch = 1 := by simp [Text.columns, hw]
      rw [get_drawChars_of_lt (by simp), get_set, if_pos ⟨rfl, hp⟩, ih (p := ⟨p.x + 1, p.y⟩) (by simp only; omega)]
      · rfl
      · intro q hq
        rw [contains_set]
        exact hrest ⟨p.x + 1, p.y⟩ (by simp [hone]) rfl q hq

theorem read_drawText (h : ∀ q, InText p (Text.displayWidth text) q → c.contains q) :
    (c.drawText p text reason).read p.y p.x (p.x + Text.displayWidth text) = text := by
  have hread := @read_drawChars c p reason text.toList _ rfl
  rw [String.ofList_toList] at hread
  exact hread h

end Reading

section Frame

-- The outermost cells of a rectangle.
def OnBorder (p : Cell) (width height : Int) (q : Cell) : Prop :=
  (p.x ≤ q.x ∧ q.x < p.x + width ∧ p.y ≤ q.y ∧ q.y < p.y + height) ∧
    (q.x = p.x ∨ q.x = p.x + width - 1 ∨ q.y = p.y ∨ q.y = p.y + height - 1)

-- The glyph of a solid frame in one of its cells.
def frameGlyph (p : Cell) (width height : Int) (q : Cell) : Glyph :=
  if q.y = p.y then
    if q.x = p.x then .topLeft else if q.x = p.x + width - 1 then .topRight else .horizontal
  else if q.y = p.y + height - 1 then
    if q.x = p.x then .bottomLeft else if q.x = p.x + width - 1 then .bottomRight else .horizontal
  else .vertical

theorem mem_frameMarks (hw : 2 ≤ width) (hh : 2 ≤ height) {m : Mark} :
    m ∈ Command.frameMarks p width height false ↔
      (∃ x, (p.x + 1 ≤ x ∧ x < p.x + width - 1) ∧ (m = ⟨⟨x, p.y⟩, .horizontal, "frame", frameSource⟩ ∨
        m = ⟨⟨x, p.y + height - 1⟩, .horizontal, "frame", frameSource⟩)) ∨
      (∃ y, (p.y + 1 ≤ y ∧ y < p.y + height - 1) ∧ (m = ⟨⟨p.x, y⟩, .vertical, "frame", frameSource⟩ ∨
        m = ⟨⟨p.x + width - 1, y⟩, .vertical, "frame", frameSource⟩)) ∨
      m = ⟨p, .topLeft, "frame_corner", frameSource⟩ ∨
      m = ⟨⟨p.x + width - 1, p.y⟩, .topRight, "frame_corner", frameSource⟩ ∨
      m = ⟨⟨p.x, p.y + height - 1⟩, .bottomLeft, "frame_corner", frameSource⟩ ∨
      m = ⟨⟨p.x + width - 1, p.y + height - 1⟩, .bottomRight, "frame_corner", frameSource⟩ := by
  have hthin : ¬(width < 2 ∨ height < 2) := by omega
  simp only [Command.frameMarks, if_neg hthin, Bool.false_eq_true, if_false, FrameStyle.solid, List.mem_append,
    List.mem_flatMap, mem_between, List.mem_cons, List.not_mem_nil, or_false, or_assoc]

theorem onBorder_frameMarks (hw : 2 ≤ width) (hh : 2 ≤ height) :
    ∀ m ∈ Command.frameMarks p width height false,
      OnBorder p width height m.cell ∧ m.glyph = frameGlyph p width height m.cell := by
  intro m hm
  rcases (mem_frameMarks hw hh).mp hm with
      ⟨x, hx, rfl | rfl⟩ | ⟨y, hy, rfl | rfl⟩ | rfl | rfl | rfl | rfl <;>
    refine ⟨by simp only [OnBorder, true_or, or_true, and_true]; omega, ?_⟩ <;>
    simp only [frameGlyph] <;> split_ifs <;> first | rfl | omega

theorem exists_frameMarks (hw : 2 ≤ width) (hh : 2 ≤ height) (hq : OnBorder p width height q) :
    ∃ m ∈ Command.frameMarks p width height false, m.cell = q := by
  simp only [mem_frameMarks hw hh]
  obtain ⟨⟨hl, hr, ht, hb⟩, hside⟩ := hq
  obtain ⟨x, y⟩ := q
  obtain ⟨px, py⟩ := p
  simp only at hl hr ht hb hside
  -- A corner, a cell between two corners, or a cell of one of the other two sides.
  obtain rfl | rfl | hx : x = px ∨ x = px + width - 1 ∨ px + 1 ≤ x ∧ x < px + width - 1 := by omega
  case inl =>
    obtain rfl | rfl | hy : y = py ∨ y = py + height - 1 ∨ py + 1 ≤ y ∧ y < py + height - 1 := by omega
    · exact ⟨_, .inr (.inr (.inl rfl)), rfl⟩
    · exact ⟨_, .inr (.inr (.inr (.inr (.inl rfl)))), rfl⟩
    · exact ⟨_, .inr (.inl ⟨y, hy, .inl rfl⟩), rfl⟩
  case inr.inl =>
    obtain rfl | rfl | hy : y = py ∨ y = py + height - 1 ∨ py + 1 ≤ y ∧ y < py + height - 1 := by omega
    · exact ⟨_, .inr (.inr (.inr (.inl rfl))), rfl⟩
    · exact ⟨_, .inr (.inr (.inr (.inr (.inr rfl)))), rfl⟩
    · exact ⟨_, .inr (.inl ⟨y, hy, .inr rfl⟩), rfl⟩
  case inr.inr =>
    obtain rfl | rfl : y = py ∨ y = py + height - 1 := by omega
    · exact ⟨_, .inl ⟨x, hx, .inl rfl⟩, rfl⟩
    · exact ⟨_, .inl ⟨x, hx, .inr rfl⟩, rfl⟩

theorem get_drawFrame (hw : 2 ≤ width) (hh : 2 ≤ height) (hq : OnBorder p width height q) (hc : c.contains q) :
    (c.drawFrame p width height false).get q = c.charset.text (frameGlyph p width height q) := by
  rw [Command.drawFrame_eq]
  refine get_marks hc (exists_frameMarks hw hh hq) ?_
  rintro m hm rfl
  exact (onBorder_frameMarks hw hh m hm).right

theorem changes_drawFrame (hw : 2 ≤ width) (hh : 2 ≤ height) :
    Changes (OnBorder p width height) c (c.drawFrame p width height false) := by
  rw [Command.drawFrame_eq]
  exact changes_marks fun m hm => (onBorder_frameMarks hw hh m hm).left

end Frame

section Rows

-- The cells of one row of a box.
structure InRow (p : Cell) (width : Int) (q : Cell) : Prop where
  row : q.y = p.y
  left : p.x ≤ q.x
  right : q.x < p.x + width

def drawRow (c : Canvas) (p : Cell) (width : Int) : BoxRow → Canvas
  | .line content => c.drawBoxLine p width content
  | .divider => c.drawDivider p width
  | .vacant => c

def drawRows (c : Canvas) (p : Cell) (width : Int) : List BoxRow → Canvas
  | [] => c
  | row :: rest => drawRows (c.drawRow p width row) ⟨p.x, p.y + 1⟩ width rest

theorem drawRows_append (above below : List BoxRow) : c.drawRows p width (above ++ below) =
    (c.drawRows p width above).drawRows ⟨p.x, p.y + above.length⟩ width below := by
  induction above generalizing c p
  case nil => simp [drawRows]
  case cons row above ih =>
    have hy : p.y + 1 + (above.length : Int) = p.y + (row :: above).length := by
      simp only [List.length_cons]
      omega
    rw [List.cons_append, drawRows, ih, drawRows, hy]

theorem drawRows_sectionLines (lines : List String) :
    c.drawRows p width (Sections.sectionLines lines) = c.drawBoxLines p width lines := by
  have hlines (lines : List String) : c.drawRows p width (lines.map .line) = c.drawBoxLines p width lines := by
    induction lines generalizing c p
    case nil => rfl
    case cons content lines ih => exact ih
  cases lines
  case nil => rfl
  case cons content lines => exact hlines (content :: lines)

-- Sections are drawn row by row.
theorem drawSections_eq_drawRows (s : Sections) : c.drawSections p width s = c.drawRows p width s.boxRows := by
  fun_induction Sections.boxRows s generalizing c p
  case case1 => rfl
  case case2 lines => exact (drawRows_sectionLines lines).symm
  case case3 lines rest hne ih =>
    rw [drawSections, drawRows_append, drawRows_sectionLines, Sections.length_sectionLines, drawRows, ih]
    · rfl
    · exact hne

theorem mem_dividerMarks {m : Mark} : m ∈ Command.dividerMarks p width ↔
    m = ⟨p, .teeRight, "separator", "BoxRenderer.draw_box"⟩ ∨
    (∃ x, (p.x + 1 ≤ x ∧ x < p.x + width - 1) ∧ ⟨⟨x, p.y⟩, .horizontal, "separator", "BoxRenderer.draw_box"⟩ = m) ∨
    m = ⟨⟨p.x + width - 1, p.y⟩, .teeLeft, "separator", "BoxRenderer.draw_box"⟩ := by
  simp only [Command.dividerMarks, List.cons_append, List.mem_cons, List.mem_append, List.mem_map, mem_between,
    List.not_mem_nil, or_false]

theorem changes_drawDivider (hw : 2 ≤ width) : Changes (InRow p width) c (c.drawDivider p width) := by
  rw [Command.drawDivider_eq]
  refine changes_marks fun m hm => ?_
  rcases mem_dividerMarks.mp hm with rfl | ⟨x, hx, rfl⟩ | rfl <;> constructor <;> simp only <;> omega

theorem changes_drawRow (hw : 2 ≤ width) (hp : 0 ≤ padding) (h : row.Fits width padding) :
    Changes (InRow p width) c (c.drawRow p width row) := by
  cases row
  case line content =>
    have hfits := h content rfl
    refine (changes_drawText ..).mono fun q ⟨hrow, hleft, hright⟩ => ⟨hrow, ?_, ?_⟩
    · simp only at hleft
      omega
    · simp only at hright
      omega
  case divider => exact changes_drawDivider hw
  case vacant => exact .refl c

theorem get_drawDivider (hw : 2 ≤ width) (hq : InRow p width q) (hc : c.contains q) : (c.drawDivider p width).get q =
    c.charset.text (if q.x = p.x then .teeRight else if q.x = p.x + width - 1 then .teeLeft else .horizontal) := by
  obtain ⟨hrow, hleft, hright⟩ := hq
  obtain ⟨x, y⟩ := q
  obtain rfl : y = p.y := hrow
  simp only at hleft hright ⊢
  rw [Command.drawDivider_eq]
  refine get_marks hc ?_ fun m hm hcell => ?_
  · simp only [mem_dividerMarks]
    obtain rfl | rfl | hx : x = p.x ∨ x = p.x + width - 1 ∨ p.x + 1 ≤ x ∧ x < p.x + width - 1 := by omega
    · exact ⟨_, .inl rfl, rfl⟩
    · exact ⟨_, .inr (.inr rfl), rfl⟩
    · exact ⟨_, .inr (.inl ⟨x, hx, rfl⟩), rfl⟩
  · rcases mem_dividerMarks.mp hm with rfl | ⟨x', hx', rfl⟩ | rfl <;> obtain rfl := (Point.mk.inj hcell).left <;> split_ifs <;>
      first | rfl | omega

-- By induction on the rows.
theorem changes_drawRows (hw : 2 ≤ width) (hp : 0 ≤ padding) (hfits : ∀ row ∈ rows, row.Fits width padding) :
    Changes (fun q => (CellRect.mk p.x p.y width rows.length).contains q) c (c.drawRows p width rows) := by
  simp only [CellRect.contains_iff]
  induction rows generalizing c p
  case nil => exact .refl c
  case cons row rest ih =>
    obtain ⟨hrow, hrest⟩ := List.forall_mem_cons.mp hfits
    simp only [List.length_cons]
    refine ((changes_drawRow hw hp hrow).mono ?_).trans ((ih hrest).mono ?_)
    · rintro q ⟨hy, hleft, hright⟩
      omega
    · rintro q ⟨hx, hy⟩
      simp only at hx hy
      omega

-- Each row is drawn once, and other rows are drawn elsewhere.
theorem exists_drawRow (hw : 2 ≤ width) (hp : 0 ≤ padding) (hfits : ∀ row ∈ rows, row.Fits width padding)
    (hk : rows[k]? = some row) : ∃ before,
      Changes (fun q => q.y ≠ p.y + k) c before ∧
        Changes (fun q => q.y ≠ p.y + k) (before.drawRow ⟨p.x, p.y + k⟩ width row) (c.drawRows p width rows) := by
  obtain ⟨hlt, rfl⟩ := List.getElem?_eq_some_iff.mp hk
  have hrows : rows = rows.take k ++ rows[k] :: rows.drop (k + 1) := by
    rw [← List.drop_eq_getElem_cons hlt, List.take_append_drop]
  have hlength : (rows.take k).length = k := by
    rw [List.length_take]
    omega
  refine ⟨c.drawRows p width (rows.take k), ?_, ?_⟩
  · refine (changes_drawRows hw hp fun row hrow => hfits row (List.mem_of_mem_take hrow)).mono fun q hq => ?_
    rw [CellRect.contains_iff, hlength] at hq
    simp only at hq
    omega
  · have hdraw : c.drawRows p width rows =
        ((c.drawRows p width (rows.take k)).drawRow ⟨p.x, p.y + k⟩ width rows[k]).drawRows ⟨p.x, p.y + k + 1⟩ width
          (rows.drop (k + 1)) := by
      conv_lhs => rw [hrows, drawRows_append, hlength, drawRows]
    rw [hdraw]
    refine (changes_drawRows hw hp fun row hrow => hfits row (List.mem_of_mem_drop hrow)).mono fun q hq => ?_
    rw [CellRect.contains_iff] at hq
    simp only at hq
    omega

end Rows

section Boxes

variable {s : Sections} {before after : Canvas}

-- A box on a canvas. Nothing outside of its rectangle has been touched, the border is a frame with tees where dividers
-- meet the sides, and every line of its sections stands complete on a row of its own. Nothing is drawn beside a line, so
-- that the padding is blank where it was blank before.
structure ShowsBox (before after : Canvas) (p : Cell) (padding : Int) (s : Sections) : Prop where
  inside : Changes (fun q => (CellRect.mk p.x p.y (s.boxWidth padding) s.boxHeight).contains q) before after
  height : s.boxRows.length + 2 = s.boxHeight
  lines : s.boxRows.filterMap BoxRow.content? = s.flatten
  top : ∀ x, p.x ≤ x → x < p.x + s.boxWidth padding → after.get ⟨x, p.y⟩ = before.charset.text
    (if x = p.x then .topLeft else if x = p.x + s.boxWidth padding - 1 then .topRight else .horizontal)
  bottom : ∀ x, p.x ≤ x → x < p.x + s.boxWidth padding → after.get ⟨x, p.y + s.boxHeight - 1⟩ = before.charset.text
    (if x = p.x then .bottomLeft else if x = p.x + s.boxWidth padding - 1 then .bottomRight else .horizontal)
  sides : ∀ (k : Nat) row, s.boxRows[k]? = some row →
    after.get ⟨p.x, p.y + 1 + k⟩ = before.charset.text row.leftGlyph ∧
      after.get ⟨p.x + s.boxWidth padding - 1, p.y + 1 + k⟩ = before.charset.text row.rightGlyph
  line : ∀ (k : Nat) content, s.boxRows[k]? = some (.line content) → ∃ start stop : Int,
    p.x + 1 + padding ≤ start ∧ stop = start + Text.displayWidth content ∧
      stop + padding ≤ p.x + s.boxWidth padding - 1 ∧ after.read (p.y + 1 + k) start stop = content ∧
      ∀ x, p.x < x → x < p.x + s.boxWidth padding - 1 → x < start ∨ stop ≤ x →
        after.get ⟨x, p.y + 1 + k⟩ = before.get ⟨x, p.y + 1 + k⟩
  blank : (∀ q, (CellRect.mk p.x p.y (s.boxWidth padding) s.boxHeight).contains q → before.get q = " ") →
    ∀ (k : Nat) content, s.boxRows[k]? = some (.line content) → ∀ x, p.x < x → x < p.x + s.boxWidth padding - 1 →
      x ≤ p.x + padding ∨ p.x + s.boxWidth padding - 1 - padding ≤ x → after.get ⟨x, p.y + 1 + k⟩ = " "
  divider : ∀ (k : Nat), s.boxRows[k]? = some .divider → ∀ x, p.x < x → x < p.x + s.boxWidth padding - 1 →
    after.get ⟨x, p.y + 1 + k⟩ = before.charset.text .horizontal
  vacant : ∀ (k : Nat), s.boxRows[k]? = some .vacant → ∀ x, p.x < x → x < p.x + s.boxWidth padding - 1 →
    after.get ⟨x, p.y + 1 + k⟩ = before.get ⟨x, p.y + 1 + k⟩

theorem get_drawRow_of_side (hp : 0 ≤ padding) (h : row.Fits width padding) (hr : row ≠ .divider)
    (hq : q.x = p.x ∨ q.x = p.x + width - 1) : (c.drawRow p width row).get q = c.get q := by
  cases row
  case line content =>
    have hfits := h content rfl
    refine (changes_drawText ..).get q ?_
    rintro ⟨-, hleft, hright⟩
    simp only at hleft hright
    omega
  case divider => exact absurd rfl hr
  case vacant => rfl

-- What a frame and rows inside it show in one of the rows: the row has been drawn on the sides of the frame and, between
-- them, on what was there before.
structure Framed (c after : Canvas) (p : Cell) (width : Int) (row : BoxRow) (before : Canvas) : Prop where
  charset : before.charset = c.charset
  contains : ∀ x, p.x ≤ x → x < p.x + width → before.contains ⟨x, p.y⟩
  left : before.get p = c.charset.text .vertical
  right : before.get ⟨p.x + width - 1, p.y⟩ = c.charset.text .vertical
  between : ∀ x, p.x < x → x < p.x + width - 1 → before.get ⟨x, p.y⟩ = c.get ⟨x, p.y⟩
  get : ∀ x, after.get ⟨x, p.y⟩ = (before.drawRow p width row).get ⟨x, p.y⟩

theorem exists_framed (hw : 2 ≤ width) (hp : 0 ≤ padding) (hfits : ∀ row ∈ rows, row.Fits width padding)
    (hheight : (rows.length : Int) + 2 = height)
    (hin : ∀ q, (CellRect.mk p.x p.y width height).contains q → c.contains q) (hk : rows[k]? = some row) :
    ∃ before, Framed c ((c.drawFrame p width height false).drawRows ⟨p.x, p.y + 1⟩ width rows)
      ⟨p.x, p.y + 1 + k⟩ width row before := by
  obtain ⟨before, habove, hbelow⟩ := exists_drawRow (c := c.drawFrame p width height false) (p := ⟨p.x, p.y + 1⟩)
    hw hp hfits hk
  obtain ⟨hlt, -⟩ := List.getElem?_eq_some_iff.mp hk
  have hh : 2 ≤ height := by omega
  have hframe := changes_drawFrame (c := c) (p := p) hw hh
  have hold (x : Int) : before.get ⟨x, p.y + 1 + k⟩ = (c.drawFrame p width height false).get ⟨x, p.y + 1 + k⟩ :=
    habove.get _ (by simp)
  have hcontains (x : Int) (hl : p.x ≤ x) (hr : x < p.x + width) : c.contains ⟨x, p.y + 1 + k⟩ :=
    hin _ (CellRect.contains_iff.mpr (by simp only; omega))
  have hside (x : Int) (hx : x = p.x ∨ x = p.x + width - 1) :
      before.get ⟨x, p.y + 1 + k⟩ = c.charset.text .vertical := by
    have hborder : OnBorder p width height ⟨x, p.y + 1 + k⟩ := by
      simp only [OnBorder]
      omega
    have hglyph : frameGlyph p width height ⟨x, p.y + 1 + k⟩ = .vertical := by
      rw [frameGlyph, if_neg (by simp only; omega), if_neg (by simp only; omega)]
    rw [hold, get_drawFrame hw hh hborder (hcontains x (by omega) (by omega)), hglyph]
  refine ⟨before, habove.charset.trans hframe.charset, ?_, hside _ (.inl rfl), hside _ (.inr rfl), ?_, ?_⟩
  · intro x hl hr
    rw [habove.contains, hframe.contains]
    exact hcontains x hl hr
  · intro x hl hr
    rw [hold, hframe.get]
    simp only [OnBorder]
    simp only at hl hr
    omega
  · exact fun x => hbelow.get _ (by simp)

namespace Framed

variable {content : String}

theorem sides (h : Framed c after p width row before) (hw : 2 ≤ width) (hp : 0 ≤ padding)
    (hfits : row.Fits width padding) : after.get p = c.charset.text row.leftGlyph ∧
      after.get ⟨p.x + width - 1, p.y⟩ = c.charset.text row.rightGlyph := by
  have hleft : after.get p = (before.drawRow p width row).get p := h.get p.x
  rw [hleft, h.get]
  by_cases hd : row = .divider
  case pos =>
    subst hd
    have hne : p.x + width - 1 ≠ p.x := by omega
    have hget (x : Int) (hl : p.x ≤ x) (hr : x < p.x + width) :=
      get_drawDivider (p := p) (q := ⟨x, p.y⟩) hw ⟨rfl, hl, hr⟩ (h.contains x hl hr)
    rw [drawRow, hget p.x le_rfl (by omega), hget _ (by omega) (by omega), h.charset]
    simp [hne, BoxRow.leftGlyph, BoxRow.rightGlyph]
  case neg =>
    have hglyphs : row.leftGlyph = .vertical ∧ row.rightGlyph = .vertical := by
      cases row
      case divider => exact absurd rfl hd
      all_goals exact ⟨rfl, rfl⟩
    rw [get_drawRow_of_side hp hfits hd (.inl rfl), get_drawRow_of_side hp hfits hd (.inr rfl), hglyphs.left,
      hglyphs.right]
    exact ⟨h.left, h.right⟩

-- A line is written in the middle of its row. Rounding leaves the padding on both sides.
theorem line (h : Framed c after p width (.line content) before) (hp : 0 ≤ padding)
    (hfits : (BoxRow.line content).Fits width padding) : ∃ start stop : Int,
    p.x + 1 + padding ≤ start ∧ stop = start + Text.displayWidth content ∧
      stop + padding ≤ p.x + width - 1 ∧ after.read p.y start stop = content ∧
      ∀ x, p.x < x → x < p.x + width - 1 → x < start ∨ stop ≤ x → after.get ⟨x, p.y⟩ = c.get ⟨x, p.y⟩ := by
  have hwide := hfits content rfl
  obtain ⟨start, hstart⟩ : ∃ start, start = p.x + 1 + (width - 2 - Text.displayWidth content) / 2 := ⟨_, rfl⟩
  refine ⟨start, _, by omega, rfl, by omega, ?_, fun x hl hr hx => ?_⟩
  · rw [read_congr h.get, drawRow, drawBoxLine, ← hstart]
    refine read_drawText (p := ⟨start, p.y⟩) fun q ⟨hy, hleft, hright⟩ => ?_
    obtain ⟨x, y⟩ := q
    obtain rfl : y = p.y := hy
    simp only at hleft hright
    exact h.contains x (by omega) (by omega)
  · rw [h.get, drawRow, drawBoxLine, ← hstart, (changes_drawText ..).get]
    · exact h.between x hl hr
    · rintro ⟨-, hleft, hright⟩
      simp only at hleft hright
      omega

theorem divider (h : Framed c after p width .divider before) (hw : 2 ≤ width) {x : Int} (hl : p.x < x)
    (hr : x < p.x + width - 1) : after.get ⟨x, p.y⟩ = c.charset.text .horizontal := by
  have hin : InRow p width ⟨x, p.y⟩ := ⟨rfl, hl.le, by simp only; omega⟩
  rw [h.get, drawRow, get_drawDivider hw hin (h.contains x hl.le (by omega)), h.charset]
  simp [hl.ne', hr.ne]

theorem vacant (h : Framed c after p width .vacant before) {x : Int} (hl : p.x < x) (hr : x < p.x + width - 1) :
    after.get ⟨x, p.y⟩ = c.get ⟨x, p.y⟩ :=
  (h.get x).trans (h.between x hl hr)

end Framed

-- The rows inside a frame leave its first and its last row as they are.
theorem get_framed_border (hw : 2 ≤ width) (hp : 0 ≤ padding) (hfits : ∀ row ∈ rows, row.Fits width padding)
    (hheight : (rows.length : Int) + 2 = height)
    (hin : ∀ q, (CellRect.mk p.x p.y width height).contains q → c.contains q) (hl : p.x ≤ q.x)
    (hr : q.x < p.x + width) (hy : q.y = p.y ∨ q.y = p.y + height - 1) :
    ((c.drawFrame p width height false).drawRows ⟨p.x, p.y + 1⟩ width rows).get q =
      c.charset.text (frameGlyph p width height q) := by
  have hh : 2 ≤ height := by omega
  have hrows := changes_drawRows (c := c.drawFrame p width height false) (p := ⟨p.x, p.y + 1⟩) hw hp hfits
  rw [hrows.get _ (by simp only [CellRect.contains_iff]; omega)]
  refine get_drawFrame hw hh ?_ (hin _ (CellRect.contains_iff.mpr ?_))
  · simp only [OnBorder]
    omega
  · simp only
    omega

theorem changes_framed (hw : 2 ≤ width) (hp : 0 ≤ padding) (hfits : ∀ row ∈ rows, row.Fits width padding)
    (hheight : (rows.length : Int) + 2 = height) :
    Changes (fun q => (CellRect.mk p.x p.y width height).contains q) c
      ((c.drawFrame p width height false).drawRows ⟨p.x, p.y + 1⟩ width rows) := by
  have hh : 2 ≤ height := by omega
  have hframe := changes_drawFrame (c := c) (p := p) hw hh
  have hrows := changes_drawRows (c := c.drawFrame p width height false) (p := ⟨p.x, p.y + 1⟩) hw hp hfits
  simp only [CellRect.contains_iff] at hrows ⊢
  refine (hframe.mono fun q hq => ?_).trans (hrows.mono fun q hq => ?_)
  · simp only [OnBorder] at hq
    omega
  · omega

-- A box that fits on the canvas is drawn as wide and as high as its text asks for.
theorem showsBox_drawBox (hs : s ≠ []) (hpadding : 0 ≤ padding)
    (hfits : ∀ q, (CellRect.mk p.x p.y (s.boxWidth padding) s.boxHeight).contains q → c.contains q) :
    ShowsBox c (c.drawBox p (s.boxWidth padding) s) p padding s := by
  have hlength := Sections.length_boxRows hs
  have hheight : (s.boxRows.length : Int) + 2 = s.boxHeight := by omega
  have hw : 2 ≤ s.boxWidth padding := by
    rw [Sections.boxWidth]
    omega
  have hrows : ∀ row ∈ s.boxRows, row.Fits (s.boxWidth padding) padding := fun row => Sections.fits_boxWidth padding
  have hdraw : c.drawBox p (s.boxWidth padding) s =
      (c.drawFrame p (s.boxWidth padding) s.boxHeight false).drawRows ⟨p.x, p.y + 1⟩ (s.boxWidth padding) s.boxRows :=
    drawSections_eq_drawRows s
  have hrow {k : Nat} {row : BoxRow} (hk : s.boxRows[k]? = some row) :=
    exists_framed hw hpadding hrows hheight hfits hk
  have hborder {x y : Int} := get_framed_border (q := ⟨x, y⟩) hw hpadding hrows hheight hfits
  rw [hdraw]
  constructor
  case inside => exact changes_framed hw hpadding hrows hheight
  case height => exact hlength
  case lines => exact Sections.filterMap_boxRows s
  case top =>
    intro x hl hr
    rw [hborder hl hr (.inl rfl), frameGlyph, if_pos rfl]
  case bottom =>
    intro x hl hr
    rw [hborder hl hr (.inr rfl), frameGlyph, if_neg (by simp only; omega), if_pos rfl]
  case sides =>
    intro k row hk
    obtain ⟨before, hbefore⟩ := hrow hk
    exact hbefore.sides hw hpadding (hrows row (List.mem_of_getElem? hk))
  case line =>
    intro k content hk
    obtain ⟨before, hbefore⟩ := hrow hk
    exact hbefore.line hpadding (hrows _ (List.mem_of_getElem? hk))
  case blank =>
    intro hblank k content hk x hl hr hx
    obtain ⟨hlt, -⟩ := List.getElem?_eq_some_iff.mp hk
    obtain ⟨before, hbefore⟩ := hrow hk
    obtain ⟨start, stop, hstart, -, hstop, -, hrest⟩ := hbefore.line hpadding (hrows _ (List.mem_of_getElem? hk))
    simp only at hstart hstop
    rw [hrest x hl hr (by omega)]
    refine hblank _ (CellRect.contains_iff.mpr ?_)
    simp only
    omega
  case divider =>
    intro k hk x hl hr
    obtain ⟨before, hbefore⟩ := hrow hk
    exact hbefore.divider hw hl hr
  case vacant =>
    intro k hk x hl hr
    obtain ⟨before, hbefore⟩ := hrow hk
    exact hbefore.vacant hl hr

-- A section with a wide character beside an empty one, drawn over a corner of a text.
theorem showsBox_drawBox_wide :
    let before := (blank 9 6 .unicode false).drawText ⟨0, 0⟩ "below"
    let sections : Sections := [["中", "ab"], []]
    ShowsBox before (before.drawBox ⟨1, 0⟩ (sections.boxWidth 1) sections) ⟨1, 0⟩ 1 sections := by
  intro before sections
  refine showsBox_drawBox (by decide) (by decide) fun q hq => ?_
  have hsize : sections.boxWidth 1 = 6 ∧ sections.boxHeight = 6 := by decide
  have hcontains : before.contains q = (blank 9 6 .unicode false).contains q := contains_of_size size_drawChars
  rw [hsize.left, hsize.right, CellRect.contains_iff] at hq
  rw [hcontains, contains_iff]
  simp only [blank] at hq ⊢
  omega

end Boxes

end Canvas

end LayeredDiagram
