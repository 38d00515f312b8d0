import LayeredDiagram.Proofs.Merging
/-!
Dashed paths. The first path that joins a cell leaves a dashed line where it is straight. The next one finds a line
there, and a line that is merged with another is solid, even if both are dashed.
-/

namespace LayeredDiagram

open Join

namespace Directions

variable {d e : Directions}

-- Nothing but left and right.
def Sideways (d : Directions) : Prop :=
  d.up = false ∧ d.down = false

-- Nothing but up and down.
def Upright (d : Directions) : Prop :=
  d.left = false ∧ d.right = false

instance : Decidable d.Sideways :=
  inferInstanceAs (Decidable (_ ∧ _))

instance : Decidable d.Upright :=
  inferInstanceAs (Decidable (_ ∧ _))

theorem sideways_step (d e : Directions) (hd : d.Sideways) (he : e.Sideways) : (e.union d).completed.Sideways := by
  obtain ⟨u, d, l, r⟩ := d
  obtain ⟨u', d', l', r'⟩ := e
  revert u d l r u' d' l' r'
  decide

theorem upright_step (d e : Directions) (hd : d.Upright) (he : e.Upright) : (e.union d).completed.Upright := by
  obtain ⟨u, d, l, r⟩ := d
  obtain ⟨u', d', l', r'⟩ := e
  revert u d l r u' d' l' r'
  decide

theorem Sideways.eq_horizontal (h : d.Sideways) (hc : d.completed = d) (hd : d ≠ .none) : d = .horizontal := by
  obtain ⟨u, d, l, r⟩ := d
  revert u d l r
  decide

theorem Upright.eq_vertical (h : d.Upright) (hc : d.completed = d) (hd : d ≠ .none) : d = .vertical := by
  obtain ⟨u, d, l, r⟩ := d
  revert u d l r
  decide

end Directions

namespace Glyph

variable {g : Glyph}

theorem dashed_mem_lines (hg : g ∈ lines) : g.dashed ∈ lines := by
  revert g
  decide

theorem directions_dashed (g : Glyph) : g.dashed.directions = g.directions := by
  cases g <;> rfl

end Glyph

namespace Canvas

variable {c : Canvas} {q : Cell} {d : Directions} {n : Nat} {dashed : Bool} {cells : List Cell}
variable {paths : List (List Cell)}

theorem charset_drawLine : (c.drawLine cells dashed).charset = c.charset := by
  rw [drawLine]
  induction merged (visits (bends cells)) generalizing c
  case nil => rfl
  case cons j joins hi => rw [List.foldl_cons, hi, charset_connect]

theorem contains_drawLine : (c.drawLine cells dashed).contains q = c.contains q := by
  rw [drawLine]
  induction merged (visits (bends cells)) generalizing c
  case nil => rfl
  case cons j joins hi => rw [List.foldl_cons, hi, contains_connect]

def drawDashed (c : Canvas) (paths : List (List Cell)) : Canvas :=
  paths.foldl (fun c cells => c.drawPath cells true none none) c

-- What a cell shows that some paths have joined, with the directions that it has got from them.
def shown (d : Directions) (n : Nat) : String :=
  match Glyph.ofDirections? d with
  | none => " "
  | some g => Charset.unicode.text (if n = 1 then g.dashed else g)

theorem directions?_shown (hd : d ≠ .none) (hc : d.completed = d) :
    Charset.unicode.directions? (shown d n) = some d := by
  have ⟨g, hg, hof, hdirections⟩ := Glyph.exists_ofDirections? hd
  rw [hc] at hdirections
  simp only [shown, hof]
  split
  case isFalse => rw [Charset.directions?_text_of_mem_lines hg, hdirections]
  case isTrue =>
    rw [Charset.directions?_text_of_mem_lines (Glyph.dashed_mem_lines hg), Glyph.directions_dashed, hdirections]

-- The directions that a cell gets from paths that are drawn one after the other.
def overlaid (d : Directions) (paths : List (List Cell)) (q : Cell) : Directions :=
  paths.foldl (fun d cells => ((joinsAt cells q).union d).completed) d

-- The number of paths that join a cell.
def crossings (paths : List (List Cell)) (q : Cell) : Nat :=
  paths.countP fun cells => joinsAt cells q ≠ .none

-- A cell that so many dashed paths have joined, with the directions that it has got from them.
structure Crossed (c : Canvas) (q : Cell) (d : Directions) (n : Nat) : Prop where
  charset : c.charset = .unicode
  contains : c.contains q
  completed : d.completed = d
  eq_none_iff : d = .none ↔ n = 0
  get_eq : c.get q = shown d n

namespace Crossed

theorem initial {width height : Nat} {recording : Bool} (hq : (blank width height .unicode recording).contains q) :
    (blank width height .unicode recording).Crossed q .none 0 where
  charset := rfl
  contains := hq
  completed := Directions.completed_none
  eq_none_iff := by simp
  get_eq := get_blank ..

theorem step (h : c.Crossed q d n) (hs : cells.IsChain Cell.Straight) :
    (c.drawPath cells true none none).Crossed q ((joinsAt cells q).union d).completed
      (n + if joinsAt cells q ≠ .none then 1 else 0) := by
  have hget : (c.drawPath cells true none none).get q = if joinsAt cells q ≠ .none ∧ c.contains q then
      c.charset.joined (c.get q) (joinsAt cells q) true else c.get q := get_drawLine hs
  have heq_none := h.eq_none_iff
  constructor
  case charset => exact (charset_drawLine (c := c)).trans h.charset
  case contains => exact (contains_drawLine (c := c)).trans h.contains
  case completed => exact Directions.completed_completed _
  case eq_none_iff =>
    rw [Directions.completed_eq_none_iff]
    by_cases hj : joinsAt cells q = .none
    case pos => simpa [hj] using heq_none
    case neg => simpa [hj] using Directions.union_ne_none hj
  case get_eq =>
    rw [hget, h.charset, h.get_eq]
    by_cases hj : joinsAt cells q = .none
    case pos => simp [hj, h.completed]
    case neg =>
      have ⟨g, _, hg, _⟩ := Glyph.exists_ofDirections? (Directions.union_ne_none (e := d) hj)
      have hshown (k : Nat) : shown ((joinsAt cells q).union d).completed k =
          Charset.unicode.text (if k = 1 then g.dashed else g) := by
        rw [shown, Glyph.ofDirections?_completed, hg]
      rw [if_pos ⟨hj, h.contains⟩, if_pos hj, hshown]
      by_cases hd : d = .none
      case pos =>
        -- the first path
        subst hd
        rw [Directions.union_none] at hg
        have hn : n = 0 := heq_none.mp rfl
        exact hn ▸ Charset.joined_blank hg
      case neg =>
        have hn : n ≠ 0 := fun hn => hd (heq_none.mpr hn)
        rw [Charset.joined_of_directions? (directions?_shown hd h.completed) hg, if_neg (by omega)]

-- By induction on the paths.
theorem run (h : c.Crossed q d n) (hs : ∀ cells ∈ paths, cells.IsChain Cell.Straight) :
    (c.drawDashed paths).Crossed q (overlaid d paths q) (n + crossings paths q) := by
  induction paths generalizing c d n
  case nil => exact h
  case cons cells paths hi =>
    have hrest := hi (h.step (hs cells List.mem_cons_self)) fun cells hcells => hs cells (List.mem_cons_of_mem _ hcells)
    have hn : n + crossings (cells :: paths) q =
        (n + if joinsAt cells q ≠ .none then 1 else 0) + crossings paths q := by
      simp only [crossings, List.countP_cons, decide_eq_true_eq]
      omega
    rw [hn]
    exact hrest

end Crossed

-- By induction on the paths.
theorem overlaid_of_forall {P : Directions → Prop} (hstep : ∀ d e, P d → P e → P (e.union d).completed) (hd : P d)
    (h : ∀ cells ∈ paths, P (joinsAt cells q)) : P (overlaid d paths q) := by
  induction paths generalizing d
  case nil => exact hd
  case cons cells paths hi =>
    have ⟨hcells, hpaths⟩ := List.forall_mem_cons.mp h
    exact hi (hstep d _ hd hcells) hpaths

-- A cell shows the line with the directions of all paths that join it; it is dashed where it is straight and exactly
-- one path joins it.
theorem get_drawDashed (width height : Nat) (recording : Bool) {paths : List (List Cell)}
    (hs : ∀ cells ∈ paths, cells.IsChain Cell.Straight) {q : Cell}
    (hq : (blank width height .unicode recording).contains q) :
    let drawn := (blank width height .unicode recording).drawDashed paths
    drawn.get q = shown (overlaid .none paths q) (crossings paths q) ∧
      (0 < crossings paths q →
        ((∀ cells ∈ paths, (joinsAt cells q).Sideways) →
          drawn.get q = Charset.unicode.text (if crossings paths q = 1 then .dashHorizontal else .horizontal)) ∧
        ((∀ cells ∈ paths, (joinsAt cells q).Upright) →
          drawn.get q = Charset.unicode.text (if crossings paths q = 1 then .dashVertical else .vertical))) := by
  intro drawn
  have hrun : drawn.Crossed q (overlaid .none paths q) (0 + crossings paths q) := (Crossed.initial hq).run hs
  rw [Nat.zero_add] at hrun
  refine ⟨hrun.get_eq, fun hn => ?_⟩
  have hne : overlaid .none paths q ≠ .none := fun h => by
    have := hrun.eq_none_iff.mp h
    omega
  constructor
  · intro h
    have hsideways := overlaid_of_forall Directions.sideways_step (show Directions.none.Sideways by decide) h
    rw [hrun.get_eq, hsideways.eq_horizontal hrun.completed hne]
    rfl
  · intro h
    have hupright := overlaid_of_forall Directions.upright_step (show Directions.none.Upright by decide) h
    rw [hrun.get_eq, hupright.eq_vertical hrun.completed hne]
    rfl

-- Two paths that cross and one that comes upon the first of them.
theorem get_drawDashed_branch :
    let drawn := (blank 5 3 .unicode false).drawDashed [[⟨0, 1⟩, ⟨4, 1⟩], [⟨2, 0⟩, ⟨2, 2⟩], [⟨3, 1⟩, ⟨4, 1⟩, ⟨4, 2⟩]]
    drawn.get ⟨1, 1⟩ = "╌" ∧ drawn.get ⟨2, 1⟩ = "┼" ∧ drawn.get ⟨3, 1⟩ = "─" ∧ drawn.get ⟨4, 1⟩ = "┬" ∧
      drawn.get ⟨4, 2⟩ = "┊" := by
  intro drawn
  have hget {q : Cell} (hq : (blank 5 3 .unicode false).contains q) :=
    (@get_drawDashed 5 3 false [[⟨0, 1⟩, ⟨4, 1⟩], [⟨2, 0⟩, ⟨2, 2⟩], [⟨3, 1⟩, ⟨4, 1⟩, ⟨4, 2⟩]] (by decide) q hq).left
  exact ⟨(hget (by decide)).trans (by decide), (hget (by decide)).trans (by decide),
    (hget (by decide)).trans (by decide), (hget (by decide)).trans (by decide), (hget (by decide)).trans (by decide)⟩

-- Two dashed paths along the same cells.
theorem get_drawDashed_twice :
    let paths : List (List Cell) := [[⟨0, 0⟩, ⟨2, 0⟩], [⟨0, 0⟩, ⟨2, 0⟩]]
    (∀ cells ∈ paths, (joinsAt cells ⟨1, 0⟩) = .horizontal) ∧
      ((blank 3 1 .unicode false).drawDashed paths).get ⟨1, 0⟩ = "─" := by
  intro paths
  have hrun := (Crossed.initial (show (blank 3 1 .unicode false).contains ⟨1, 0⟩ by decide)).run
    (show ∀ cells ∈ paths, cells.IsChain Cell.Straight by decide)
  exact ⟨by decide, hrun.get_eq.trans (by decide)⟩

end Canvas

end LayeredDiagram
