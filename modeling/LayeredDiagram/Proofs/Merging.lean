import LayeredDiagram.Proofs.Joins
import LayeredDiagram.Proofs.WideCharacters
/-!
How connectors merge. A cell that a path joins to others shows the line that has the directions of the path and those
that were there before. What a cell shows is read back from its content: a connector leaves a text alone exactly where
the text has no character of a line, and a dashed line stays dashed exactly where no other line comes upon it.
-/

namespace LayeredDiagram

namespace Directions

variable {d e : Directions}

-- A single direction makes a full straight line.
def completed (d : Directions) : Directions :=
  .ofPred fun h => d.has h ∨ d = .ofHeading h.opposite

@[simp]
theorem completed_none : Directions.none.completed = .none := by
  decide

theorem completed_completed (d : Directions) : d.completed.completed = d.completed := by
  obtain ⟨u, d, l, r⟩ := d
  revert u d l r
  decide

theorem union_ne_none (hd : d ≠ .none) : d.union e ≠ .none := by
  revert hd
  rw [ne_eq, ne_eq, eq_none_iff, eq_none_iff]
  simp only [has_union]
  grind

theorem completed_eq_none_iff : d.completed = .none ↔ d = .none := by
  obtain ⟨u, d, l, r⟩ := d
  revert u d l r
  decide

end Directions

namespace Glyph

variable {d : Directions} {g : Glyph}

theorem ofDirections?_completed (d : Directions) : ofDirections? d.completed = ofDirections? d := by
  obtain ⟨u, d, l, r⟩ := d
  revert u d l r
  decide

theorem exists_ofDirections? (hd : d ≠ .none) :
    ∃ g ∈ lines, ofDirections? d = some g ∧ g.directions = d.completed := by
  obtain ⟨u, d, l, r⟩ := d
  revert u d l r
  decide

end Glyph

namespace Charset

variable {charset : Charset} {content : String} {d old : Directions} {dashed : Bool} {g : Glyph}

-- What a cell shows when directions are added to its content.
def joined (charset : Charset) (content : String) (d : Directions) (dashed : Bool) : String :=
  match charset.directions? content with
  | some old => ((Glyph.ofDirections? (d.union old)).map charset.text).getD content
  | none =>
    if content = " " then
      ((Glyph.ofDirections? d).map fun g => charset.text (if dashed then g.dashed else g)).getD content
    else content

theorem directions?_blank (charset : Charset) : charset.directions? " " = none := by
  cases charset <;> decide

-- All line glyphs of the box drawing characters can be told apart by their directions, up to dashes.
theorem directions?_text_of_mem_lines (hg : g ∈ Glyph.lines) :
    unicode.directions? (unicode.text g) = some g.directions := by
  revert g
  decide

theorem exists_of_directions? (h : charset.directions? content = some old) :
    ∃ g ∈ Glyph.lines, charset.text g = content := by
  have ⟨g, hg, _⟩ := Option.map_eq_some_iff.mp h
  exact ⟨g, List.mem_reverse.mp (List.mem_of_find?_eq_some hg), by simpa using List.find?_some hg⟩

theorem joined_blank (hg : Glyph.ofDirections? d = some g) :
    charset.joined " " d dashed = charset.text (if dashed then g.dashed else g) := by
  simp [joined, directions?_blank, hg]

theorem joined_of_directions? (hold : charset.directions? content = some old)
    (hg : Glyph.ofDirections? (d.union old) = some g) : charset.joined content d dashed = charset.text g := by
  simp [joined, hold, hg]

theorem joined_of_eq_none (hold : charset.directions? content = none) (hb : content ≠ " ") :
    charset.joined content d dashed = content := by
  simp [joined, hold, hb]

-- A character that stays when directions are added: no line, or one with all directions.
def Lasting (charset : Charset) (ch : Char) : Prop :=
  ch = charset.char .cross ∨ ∀ g ∈ Glyph.lines, ch ≠ charset.char g

instance (charset : Charset) (ch : Char) : Decidable (charset.Lasting ch) :=
  inferInstanceAs (Decidable (_ ∨ _))

theorem directions?_cross (charset : Charset) :
    charset.directions? (charset.text .cross) = some Glyph.cross.directions := by
  cases charset <;> decide

theorem ofDirections?_union_cross (d : Directions) :
    Glyph.ofDirections? (d.union Glyph.cross.directions) = some .cross := by
  simp [Directions.union, Glyph.directions, Glyph.ofDirections?]

theorem joined_of_lasting {ch : Char} (h : charset.Lasting ch) (hb : ch ≠ ' ') :
    charset.joined (String.singleton ch) d dashed = String.singleton ch := by
  cases h
  case inl hcross =>
    rw [hcross]
    exact joined_of_directions? (directions?_cross charset) (ofDirections?_union_cross d)
  case inr hline =>
    refine joined_of_eq_none ?_ fun heq => hb (String.singleton_inj.mp heq)
    by_contra hne
    have ⟨old, hold⟩ := Option.ne_none_iff_exists'.mp hne
    have ⟨g, hg, htext⟩ := exists_of_directions? hold
    exact hline g hg (String.singleton_inj.mp htext).symm

-- All directions change every other character.
theorem joined_cross_ne {ch : Char} (h : ¬charset.Lasting ch) :
    charset.joined (String.singleton ch) Glyph.cross.directions false ≠ String.singleton ch := by
  rw [Lasting, not_or, not_forall] at h
  have ⟨hcross, g, hg⟩ := h
  have ⟨hmem, heq⟩ : g ∈ Glyph.lines ∧ ch = charset.char g := by simpa using hg
  have ⟨old, hold⟩ : ∃ old, charset.directions? (String.singleton ch) = some old := by
    rw [← Option.isSome_iff_exists, directions?, Option.isSome_map, List.find?_isSome]
    exact ⟨g, List.mem_reverse.mpr hmem, by simp [text, heq]⟩
  rw [joined_of_directions? hold (Directions.union_comm old _ ▸ ofDirections?_union_cross old)]
  exact fun hsame => hcross (String.singleton_inj.mp hsame).symm

end Charset

namespace Canvas

open Cell Join

variable {c : Canvas} {p q : Cell} {d old : Directions} {dashed : Bool} {cells : List Cell} {g : Glyph}

theorem charset_set (text reason source : String) : (c.set p text reason source).charset = c.charset := by
  unfold set
  split <;> rfl

theorem charset_connect (c : Canvas) (p : Cell) (d : Directions) (dashed : Bool) :
    (c.connect p d dashed).charset = c.charset := by
  cases c.connect_cases p d dashed
  case inl h => rw [h]
  case inr h =>
    have ⟨_, _, _, _, h⟩ := h
    rw [h, setGlyph, charset_set]

theorem contains_connect : (c.connect p d dashed).contains q = c.contains q :=
  contains_of_size (size_connect ..)

theorem get_connect : (c.connect p d dashed).get q =
    if q = p ∧ c.contains p then c.charset.joined (c.get p) d dashed else c.get q := by
  have hself : (if q = p ∧ c.contains p then c.get p else c.get q) = c.get q := by
    split
    case isTrue h => rw [h.left]
    case isFalse => rfl
  rw [connect, connect?, Charset.joined, directions?]
  cases c.charset.directions? (c.get p)
  case some old =>
    dsimp only
    cases Glyph.ofDirections? (d.union old)
    case none => exact hself.symm
    case some g => exact get_set ..
  case none =>
    dsimp only
    by_cases hb : c.get p = " "
    case neg => simp [hb, hself]
    case pos =>
      rw [if_pos hb, if_pos hb]
      cases Glyph.ofDirections? d
      case none => exact hself.symm
      case some g => exact get_set ..

-- By induction on the cells, which are all different: each is joined once.
theorem get_foldl_connect (hn : cells.Nodup) (f : Cell → Directions) :
    (cells.foldl (fun c p => c.connect p (f p) dashed) c).get q =
      if q ∈ cells ∧ c.contains q then c.charset.joined (c.get q) (f q) dashed else c.get q := by
  induction cells generalizing c
  case nil => simp
  case cons p cells hi =>
    have ⟨hp, hn⟩ := List.nodup_cons.mp hn
    rw [List.foldl_cons, hi hn, charset_connect, contains_connect, get_connect]
    by_cases hq : q = p
    case pos => simp [hq, hp]
    case neg => simp [hq]

-- A path adds the directions that it joins at a cell all at once.
theorem get_drawLine (hs : cells.IsChain Straight) : (c.drawLine cells dashed).get q =
    if joinsAt cells q ≠ .none ∧ c.contains q then c.charset.joined (c.get q) (joinsAt cells q) dashed
    else c.get q := by
  rw [drawLine, merged, visits_bends, List.foldl_map]
  simp only [getD_met_visits hs]
  rw [get_foldl_connect (nodup_distinct ..)]
  simp [mem_distinct, ← mem_cells_visits_iff hs]

-- The directions of the line in a cell, if it is blank or holds a line. A blank cell has none.
inductive Holds (c : Canvas) (q : Cell) : Directions → Prop where
  | blank : c.get q = " " → Holds c q .none
  | line {g : Glyph} : g ∈ Glyph.lines → c.get q = c.charset.text g → Holds c q g.directions

-- What is added to a blank cell or a line.
theorem Holds.exists_joined (h : c.Holds q old) (hc : c.charset = .unicode) (hd : d ≠ .none) :
    ∃ g ∈ Glyph.lines, g.directions = (old.union d).completed ∧ Glyph.ofDirections? (old.union d) = some g ∧
      c.charset.joined (c.get q) d false = c.charset.text g := by
  have ⟨g, hg, hof, hdirections⟩ := Glyph.exists_ofDirections? (Directions.union_ne_none (e := old) hd)
  rw [Directions.union_comm] at hof hdirections
  refine ⟨g, hg, hdirections, hof, ?_⟩
  cases h
  case blank hb =>
    rw [hb, Charset.joined_blank (by simpa using hof)]
    rfl
  case line g' hg' htext =>
    have hold : c.charset.directions? (c.charset.text g') = some g'.directions :=
      hc ▸ Charset.directions?_text_of_mem_lines hg'
    rw [htext, Charset.joined_of_directions? hold (Directions.union_comm _ d ▸ hof)]

theorem joined_of_not_holds (h : ¬∃ old, c.Holds q old) : c.charset.joined (c.get q) d dashed = c.get q := by
  rw [not_exists] at h
  refine Charset.joined_of_eq_none ?_ fun hb => h _ (.blank hb)
  by_contra hne
  have ⟨old, hold⟩ := Option.ne_none_iff_exists'.mp hne
  have ⟨g, hg, htext⟩ := Charset.exists_of_directions? hold
  exact h _ (.line hg htext.symm)

-- A solid path adds to all blank cells and lines on its way what it joins there, which is nothing only if the path is a
-- single cell. Everything else stays as it is. The loop over the cells of a run ends for each of the runs.
theorem get_drawPath_unicode (c : Canvas) (hc : c.charset = .unicode) {cells : List Cell}
    (hs : cells.IsChain Straight) :
    let drawn := c.drawPath cells false none none
    (∀ r ∈ runs (bends cells), ∃ h, r.1.heading? r.2 = some h ∧ Walk h r.2 r.1 ((run r.1 r.2).map (·.cell))) ∧
      (∀ q, ¬OnPath cells q ∨ ¬c.contains q ∨ (¬∃ old, c.Holds q old) → drawn.get q = c.get q) ∧
      ∀ q old, OnPath cells q → c.contains q → c.Holds q old →
        (joinsAt cells q = .none → (∀ p ∈ cells, p = q) ∧ drawn.get q = c.get q) ∧
          (joinsAt cells q ≠ .none → ∃ g, Glyph.ofDirections? (old.union (joinsAt cells q)) = some g ∧
            g.directions = (old.union (joinsAt cells q)).completed ∧ drawn.get q = c.charset.text g) := by
  intro drawn
  have hget (q : Cell) : drawn.get q = if joinsAt cells q ≠ .none ∧ c.contains q then
      c.charset.joined (c.get q) (joinsAt cells q) false else c.get q := get_drawLine hs
  refine ⟨fun r hr => ?walk, fun q hq => ?frame, fun q old hpath hq hold => ⟨fun hj => ?single, fun hj => ?merged⟩⟩
  case walk => exact walk_run (straight_of_mem_runs (isChain_bends hs) hr) (ne_of_mem_runs_bends hr)
  case frame =>
    rw [hget]
    split
    case isFalse => rfl
    case isTrue hjoined =>
      rcases hq with hpath | hout | hother
      · exact absurd (onPath_of_joinsAt hjoined.left) hpath
      · exact absurd hjoined.right hout
      · exact joined_of_not_holds hother
  case single => exact ⟨forall_eq_of_joinsAt hs hpath hj, by rw [hget, if_neg fun h => h.left hj]⟩
  case merged =>
    have ⟨g, _, hg, hof, hjoined⟩ := hold.exists_joined hc hj
    exact ⟨g, hof, hg, by rw [hget, if_pos ⟨hj, hq⟩, hjoined]⟩

-- A path that crosses itself and runs through a text.
theorem get_drawPath_unicode_loop :
    let c := (blank 5 3 .unicode false).drawText ⟨1, 1⟩ "x"
    let drawn := c.drawPath [⟨0, 1⟩, ⟨4, 1⟩, ⟨4, 0⟩, ⟨2, 0⟩, ⟨2, 2⟩] false none none
    drawn.get ⟨2, 1⟩ = "┼" ∧ drawn.get ⟨2, 2⟩ = "│" ∧ drawn.get ⟨1, 1⟩ = "x" := by
  intro c drawn
  have ⟨_, hframe, hmerge⟩ := @get_drawPath_unicode c rfl [⟨0, 1⟩, ⟨4, 1⟩, ⟨4, 0⟩, ⟨2, 0⟩, ⟨2, 2⟩] (by decide)
  have ⟨meeting, hmeeting, _, hmeet⟩ :=
    (hmerge ⟨2, 1⟩ .none (by decide) (by decide) (.blank (by decide +kernel))).right (by decide)
  have ⟨last, hlast, _, hstop⟩ :=
    (hmerge ⟨2, 2⟩ .none (by decide) (by decide) (.blank (by decide +kernel))).right (by decide)
  have hcross : some Glyph.cross = some meeting := .trans (by decide) hmeeting
  have hvertical : some Glyph.vertical = some last := .trans (by decide) hlast
  cases hcross
  cases hvertical
  refine ⟨hmeet, hstop, (hframe ⟨1, 1⟩ (.inr (.inr ?_))).trans (by decide +kernel)⟩
  have hother : ∀ g ∈ Glyph.lines, c.get ⟨1, 1⟩ ≠ c.charset.text g := by decide +kernel
  rintro ⟨old, hold⟩
  cases hold
  case blank hb => exact absurd hb (by decide +kernel)
  case line hg htext => exact hother _ hg htext

-- The character of a text from a cell on that stands in some cell.
def charAt? : Cell → List Char → Cell → Option Char
  | _, [], _ => none
  | p, ch :: rest, q =>
    if q = p then some ch else charAt? ⟨p.x + (Text.columns ch : Nat), p.y⟩ rest q

theorem get_drawChars_of_lt {chars : List Char} {reason : String} (h : q.x < p.x) :
    (c.drawChars p reason chars).get q = c.get q := by
  induction chars generalizing c p
  case nil => rfl
  case cons first rest hi =>
    have hself : q ≠ p := fun heq => absurd h (heq ▸ lt_irrefl _)
    have hnext : q ≠ ⟨p.x + 1, p.y⟩ := fun heq => absurd h (heq ▸ by simp)
    rw [drawChars]
    split
    case isTrue =>
      rw [hi (by simp only; omega), get_set, get_set]
      simp [hself, hnext]
    case isFalse =>
      rw [hi (by simp only; omega), get_set]
      simp [hself]

-- By induction on the text. What is written later is further to the right.
theorem get_drawChars {chars : List Char} {ch : Char} {reason : String} (hq : c.contains q)
    (hch : charAt? p chars q = some ch) : (c.drawChars p reason chars).get q = String.singleton ch := by
  induction chars generalizing c p
  case nil => simp [charAt?] at hch
  case cons first rest hi =>
    rw [charAt?, Text.columns] at hch
    have hnext : (⟨p.x + 1, p.y⟩ : Cell) ≠ p := Cell.next_ne p
    split at hch
    case isTrue hself =>
      subst hself
      cases hch
      rw [drawChars]
      split
      case isTrue =>
        rw [get_drawChars_of_lt (by simp only; omega), get_set, get_set]
        simp [hnext.symm, hq]
      case isFalse =>
        rw [get_drawChars_of_lt (by simp only; omega), get_set]
        simp [hq]
    case isFalse =>
      rw [drawChars]
      split
      case isTrue hw => exact hi (by rwa [contains_set, contains_set]) (by simpa [hw] using hch)
      case isFalse hw => exact hi (by rwa [contains_set]) (by simpa [hw] using hch)

theorem charset_drawChars {chars : List Char} {reason : String} : (c.drawChars p reason chars).charset = c.charset := by
  induction chars generalizing c p
  case nil => rfl
  case cons first rest hi =>
    rw [drawChars]
    split <;> simp only [hi, charset_set]

namespace Command

-- Lines and paths without markers.
def IsConnector : Command → Prop
  | line _ _ _ => True
  | path _ _ start stop => start = none ∧ stop = none
  | _ => False

variable {command : Command}

theorem exists_line_of_mem_strokes (h : command.IsConnector) {s : Stroke} (hs : s ∈ command.strokes) :
    ∃ p d dashed, s = .line p d dashed := by
  cases command
  case line => exact ⟨_, _, _, List.mem_singleton.mp hs⟩
  case path =>
    obtain ⟨rfl, rfl⟩ := h
    simp only [strokes, startStrokes, stopStrokes, List.append_nil] at hs
    obtain ⟨j, _, heq⟩ := List.mem_map.mp hs
    exact ⟨_, _, _, heq.symm⟩
  all_goals exact h.elim

-- By induction on the lines: what no line changes stays.
theorem get_foldl_lines {strokes : List Stroke} (hs : ∀ s ∈ strokes, ∃ p d dashed, s = .line p d dashed)
    {content : String} (hc : ∀ d dashed, c.charset.joined content d dashed = content) (h : c.get q = content) :
    (strokes.foldl Stroke.draw c).get q = content := by
  induction strokes generalizing c
  case nil => exact h
  case cons s strokes hi =>
    have ⟨p, d, dashed, heq⟩ := hs s List.mem_cons_self
    subst heq
    refine hi (fun s hs' => hs s (List.mem_cons_of_mem _ hs')) ?_ ?_
    · rw [Stroke.draw, charset_connect]
      exact hc
    · rw [Stroke.draw, get_connect]
      split
      case isTrue hq => rw [← hq.left, h, hc]
      case isFalse => exact h

-- Connectors leave a character of a text alone exactly if it is no line, or one that has all directions.
theorem connectors_keep_iff (c : Canvas) (p : Cell) (content reason : String) {q : Cell} {ch : Char} (hq : c.contains q)
    (hch : charAt? p content.toList q = some ch) (hb : ch ≠ ' ') :
    (∀ connectors : List Command, (∀ command ∈ connectors, command.IsConnector) →
      (connectors.foldl run (c.drawText p content reason)).get q = String.singleton ch) ↔ c.charset.Lasting ch := by
  have htext : (c.drawText p content reason).get q = String.singleton ch := get_drawChars hq hch
  have hcharset : (c.drawText p content reason).charset = c.charset := charset_drawChars
  constructor
  case mp =>
    intro hkept
    by_contra hne
    have hline := hkept [.line q Glyph.cross.directions false] (by simp [IsConnector])
    have hin : (c.drawText p content reason).contains q := (contains_of_size size_drawChars).trans hq
    rw [List.foldl_cons, List.foldl_nil, run, get_connect, if_pos ⟨rfl, hin⟩, htext, hcharset] at hline
    exact Charset.joined_cross_ne hne hline
  case mpr =>
    intro hlasting connectors hall
    rw [foldl_run]
    refine get_foldl_lines (fun s hs => ?_) (fun d dashed => ?_) htext
    · obtain ⟨command, hcommand, hs⟩ := List.mem_flatMap.mp hs
      exact exists_line_of_mem_strokes (hall command hcommand) hs
    · rw [hcharset]
      exact Charset.joined_of_lasting hlasting hb

theorem connectors_keep_letter :
    let drawn := (blank 3 1 .ascii false).drawText ⟨0, 0⟩ "a-b"
    (∀ connectors : List Command, (∀ command ∈ connectors, command.IsConnector) →
        (connectors.foldl run drawn).get ⟨0, 0⟩ = "a") ∧
      ¬∀ connectors : List Command, (∀ command ∈ connectors, command.IsConnector) →
        (connectors.foldl run drawn).get ⟨1, 0⟩ = "-" := by
  have hletter := connectors_keep_iff (blank 3 1 .ascii false) ⟨0, 0⟩ "a-b" "text"
    (show (blank 3 1 .ascii false).contains ⟨0, 0⟩ by decide) (show _ = some 'a' from rfl) (by decide)
  have hhyphen := connectors_keep_iff (blank 3 1 .ascii false) ⟨0, 0⟩ "a-b" "text"
    (show (blank 3 1 .ascii false).contains ⟨1, 0⟩ by decide) (show _ = some '-' from rfl) (by decide)
  exact ⟨hletter.mpr (by decide), fun h => absurd (hhyphen.mp h) (by decide)⟩

-- A hyphen of a text is taken for a line.
theorem connectors_cross_hyphen :
    let drawn := (blank 3 1 .ascii false).drawText ⟨0, 0⟩ "a-b"
    let connectors := [line ⟨1, 0⟩ .vertical false]
    (∀ command ∈ connectors, command.IsConnector) ∧ drawn.get ⟨1, 0⟩ = "-" ∧
      (connectors.foldl run drawn).get ⟨1, 0⟩ = "+" :=
  ⟨by simp [IsConnector], by decide +kernel, by decide +kernel⟩

end Command

end Canvas

end LayeredDiagram
