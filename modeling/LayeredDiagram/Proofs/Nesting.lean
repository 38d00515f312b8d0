import LayeredDiagram.Proofs.Boundaries
import LayeredDiagram.Proofs.Brackets
/-!
Nesting of boundaries. The boundaries of a diagram form the tree that the braces of its text give, with every element
in the innermost boundary open at its line.
-/

namespace LayeredDiagram.C4

-- The statements of a text after its first line.
def Statement.ofText (text : String) : List Statement :=
  ((Text.meaningfulLines text).drop 1).filterMap ofLine?

namespace Boundary

theorem walkAll_eq_flatMap (bs : List Boundary) : walkAll bs = bs.flatMap walk := by
  induction bs
  case nil => rfl
  case cons b bs ih => rw [walkAll, ih, List.flatMap_cons]

end Boundary

namespace Draft

open Statement

variable {ss : List Statement} {s : Statement} {j n : Nat} {stack : List Nat} {p : Option Nat} {d : Draft}
variable {built : Nat → Boundary} {b : Boundary}

-- The boundaries directly inside another one that are not in a stack, so that their end has been read.
def closedIn (ss : List Statement) (stack : List Nat) (p : Option Nat) (n : Nat) : List Nat :=
  (inside ss p n).filter (· ∉ stack)

-- What has been read after some statements and, beyond that, the end of open boundaries until only those of a stack
-- are left. Boundaries stand in their parents once they are closed.
structure Reads (ss : List Statement) (n : Nat) (stack : List Nat) (built : Nat → Boundary) (d : Draft) : Prop where
  stack_suffix : stack <:+ enclosing ss n
  opened : d.opened = stack.map built
  roots : d.diagram.boundaries = (closedIn ss stack none n).map built
  declared : d.diagram.elements = (List.range n).filterMap (elementAt? ss)
  shape : ∀ j < n, ∀ b, boundaryAt? ss j = some b →
    built j = { b with
      elements := elementsIn ss (some j) n
      children := (closedIn ss stack (some j) n).map built }

theorem mem_closedIn : j ∈ closedIn ss stack p n ↔ j ∈ inside ss p n ∧ j ∉ stack := by
  simp [closedIn]

theorem map_update_of_notMem {positions : List Nat} (h : j ∉ positions) (b : Boundary) :
    positions.map (Function.update built j b) = positions.map built :=
  List.map_congr_left fun _ hi => Function.update_of_ne (ne_of_mem_of_not_mem hi h) _ _

theorem map_update_cons {outer : List Nat} (h : j ∉ outer) (b : Boundary) :
    (j :: outer).map (Function.update built j b) = b :: outer.map built := by
  rw [List.map_cons, Function.update_self, map_update_of_notMem h]

-- A boundary in the stack can change without a change of those that are closed.
theorem map_closedIn_update (h : j ∈ stack) (b : Boundary) :
    (closedIn ss stack p n).map (Function.update built j b) = (closedIn ss stack p n).map built :=
  map_update_of_notMem (fun hj => (mem_closedIn.mp hj).right h) b

section Next

theorem closedIn_succ (h : idAt? ss n = none) (stack : List Nat) (p : Option Nat) :
    closedIn ss stack p (n + 1) = closedIn ss stack p n := by
  simp [closedIn, inside_succ, h]

theorem elementsIn_succ_of_eq_none (h : elementAt? ss n = none) (p : Option Nat) :
    elementsIn ss p (n + 1) = elementsIn ss p n := by
  simp [elementsIn_succ, h]

theorem declared_succ (ss : List Statement) (n : Nat) : (List.range (n + 1)).filterMap (elementAt? ss) =
    (List.range n).filterMap (elementAt? ss) ++ (elementAt? ss n).toList := by
  rw [List.range_succ, List.filterMap_append]
  cases he : elementAt? ss n <;> simp [he]

theorem lt_of_boundaryAt? (h : idAt? ss n = none) (hj : j < n + 1) (hb : boundaryAt? ss j = some b) : j < n := by
  refine lt_of_le_of_ne (Nat.le_of_lt_succ hj) ?_
  rintro rfl
  rw [idAt?_eq_map, hb] at h
  cases h

end Next

theorem nodup_of_suffix (h : stack <:+ enclosing ss n) : stack.Nodup :=
  ((pairwise_enclosing ss n).imp ne_of_gt).sublist h.sublist

theorem closedIn_close (h : j :: stack <:+ enclosing ss n) (p : Option Nat) : closedIn ss stack p n =
    closedIn ss (j :: stack) p n ++ if stack.head? = p then [j] else [] := by
  have hin := innermost?_of_suffix h
  have hj : OpenAt ss j n := mem_enclosing.mp (h.mem List.mem_cons_self)
  have hstack : j ∉ stack := (List.nodup_cons.mp (nodup_of_suffix h)).left
  refine List.Pairwise.eq_of_mem_iff (r := (· < ·)) ((pairwise_inside ss p n).filter _) ?_ fun i => ?_
  · refine List.pairwise_append.mpr ⟨(pairwise_inside ss p n).filter _, by split <;> simp, ?_⟩
    intro i hi k hk
    obtain ⟨hp, rfl⟩ : stack.head? = p ∧ k = j := by
      split at hk
      case isTrue hp => exact ⟨hp, List.mem_singleton.mp hk⟩
      case isFalse => cases hk
    obtain ⟨hi, hnot⟩ := mem_closedIn.mp hi
    obtain ⟨hlt, -, hip⟩ := mem_inside.mp hi
    rcases Nat.lt_trichotomy i k with hik | rfl | hik
    · exact hik
    · exact absurd List.mem_cons_self hnot
    · exact absurd (hj.mono hik hlt.le) (not_openAt_of_inside (hin.trans hp) hip)
  · have hji : j ∈ inside ss p n ↔ stack.head? = p := by
      rw [mem_inside, hin]
      exact ⟨fun ⟨_, _, hp⟩ => hp, fun hp => ⟨hj.1, hj.2.1, hp⟩⟩
    simp only [List.mem_append, mem_closedIn, List.mem_cons, not_or]
    split <;> grind

theorem Reads.close (h : Reads ss n stack built d) : ∃ built', Reads ss n stack.tail built' d.close := by
  obtain ⟨hsuffix, hopened, hroots, hdeclared, hshape⟩ := h
  match stack with
  | [] =>
    have hclose : d.close = d := by rw [Draft.close, hopened]; rfl
    rw [hclose]
    exact ⟨built, hsuffix, hopened, hroots, hdeclared, hshape⟩
  | [j] =>
    have hclosed := closedIn_close hsuffix
    have hclose : d.close =
        { d with diagram := { d.diagram with boundaries := d.diagram.boundaries ++ [built j] }, opened := [] } := by
      rw [Draft.close, hopened, List.map_cons, List.map_nil]
    rw [hclose, List.tail_cons]
    refine ⟨built, List.nil_suffix, rfl, ?_, hdeclared, fun i hi b hb => ?_⟩
    · simp [hclosed, hroots]
    · simp [hshape i hi b hb, hclosed]
  | j :: k :: outer =>
    have hclosed := closedIn_close hsuffix
    have htail : k :: outer <:+ enclosing ss n := (List.suffix_cons j _).trans hsuffix
    have hclose : d.close =
        { d with opened := { built k with children := (built k).children ++ [built j] } :: outer.map built } := by
      rw [Draft.close, hopened, List.map_cons, List.map_cons]
    have hk : k ∉ outer := (List.nodup_cons.mp (nodup_of_suffix htail)).left
    have hjk : j ≠ k := fun heq => (List.nodup_cons.mp (nodup_of_suffix hsuffix)).left (heq ▸ List.mem_cons_self)
    rw [hclose, List.tail_cons]
    refine ⟨Function.update built k { built k with children := (built k).children ++ [built j] }, htail, ?_, ?_,
      hdeclared, fun i hi b hb => ?_⟩
    · rw [map_update_cons hk]
    · rw [map_closedIn_update List.mem_cons_self, hclosed, if_neg (by simp), List.append_nil]
      exact hroots
    · rw [map_closedIn_update List.mem_cons_self, hclosed, List.head?_cons]
      by_cases hik : i = k
      case pos =>
        subst hik
        rw [Function.update_self, hshape i hi b hb, if_pos rfl, List.map_append, List.map_singleton]
      case neg =>
        rw [Function.update_of_ne hik, hshape i hi b hb, if_neg (by simpa using Ne.symm hik), List.append_nil]

theorem Reads.parent? (h : Reads ss n (enclosing ss n) built d) : d.parent? = parentAt? ss n := by
  rw [Draft.parent?, parentAt?, innermost?, h.opened, List.head?_map, Option.map_map]
  cases hhead : (enclosing ss n).head?
  case none => rfl
  case some j =>
    obtain ⟨hj, hid, -⟩ := mem_enclosing.mp (List.mem_of_head? hhead)
    obtain ⟨b, hb⟩ : ∃ b, boundaryAt? ss j = some b := by
      rwa [idAt?_eq_map, Option.isSome_map, Option.isSome_iff_exists] at hid
    simp [idAt?_eq_map, hb, h.shape j hj b hb]

-- Statements that are neither a boundary nor an element leave what has been read as it was.
theorem Reads.pass {d' : Draft} (h : Reads ss n stack built d) (hid : idAt? ss n = none)
    (he : elementAt? ss n = none) (hstack : stack <:+ enclosing ss (n + 1)) (hopened : d'.opened = d.opened)
    (hroots : d'.diagram.boundaries = d.diagram.boundaries) (hdeclared : d'.diagram.elements = d.diagram.elements) :
    Reads ss (n + 1) stack built d' := by
  refine ⟨hstack, hopened.trans h.opened, ?_, ?_, fun j hj b hb => ?_⟩
  · rw [hroots, h.roots, closedIn_succ hid]
  · rw [hdeclared, h.declared, declared_succ, he, Option.toList_none, List.append_nil]
  · rw [h.shape j (lt_of_boundaryAt? hid hj hb) b hb, closedIn_succ hid, elementsIn_succ_of_eq_none he]

theorem Reads.boundary {kind id label : String} (h : Reads ss n (enclosing ss n) built d)
    (hs : ss[n]? = some (.boundary kind id label)) :
    ∃ built', Reads ss (n + 1) (enclosing ss (n + 1)) built' (d.add (.boundary kind id label)) := by
  have hstack : enclosing ss (n + 1) = n :: enclosing ss n := enclosing_succ hs
  have hn : n ∉ enclosing ss n := fun hmem => (mem_enclosing.mp hmem).1.false
  have hnew : boundaryAt? ss n = some { id, label, kind, parent := parentAt? ss n } := by rw [boundaryAt?, hs]
  have he : elementAt? ss n = none := by rw [elementAt?, hs]
  have hclosed (p : Option Nat) : closedIn ss (n :: enclosing ss n) p (n + 1) = closedIn ss (enclosing ss n) p n := by
    have hold : closedIn ss (n :: enclosing ss n) p n = closedIn ss (enclosing ss n) p n :=
      List.filter_congr fun j hj => by simp [(mem_inside.mp hj).left.ne]
    rw [← hold, closedIn, inside_succ, List.filter_append, closedIn]
    split <;> simp
  rw [hstack]
  refine ⟨Function.update built n { id, label, kind, parent := parentAt? ss n }, hstack ▸ List.suffix_refl _,
    ?_, ?_, ?_, fun j hj b hb => ?_⟩
  · rw [Draft.add, h.parent?, h.opened, map_update_cons hn]
  · rw [map_closedIn_update List.mem_cons_self, hclosed]
    exact h.roots
  · rw [declared_succ, ← h.declared, he, Option.toList_none, List.append_nil, Draft.add]
  · rw [map_closedIn_update List.mem_cons_self, hclosed, elementsIn_succ_of_eq_none he]
    by_cases hjn : j = n
    case pos =>
      subst hjn
      obtain rfl : _ = b := Option.some.inj (hnew.symm.trans hb)
      have hnone : ∀ i < j, innermost? ss i ≠ some j := fun i hi hin => (lt_of_innermost? hin).not_gt hi
      have hempty : elementsIn ss (some j) j = [] ∧ closedIn ss (enclosing ss j) (some j) j = [] := by
        constructor
        · refine List.filterMap_eq_nil_iff.mpr fun i hi => if_neg (hnone i (List.mem_range.mp hi))
        · refine List.eq_nil_iff_forall_not_mem.mpr fun i hi => ?_
          obtain ⟨hlt, -, hin⟩ := mem_inside.mp (mem_closedIn.mp hi).left
          exact hnone i hlt hin
      rw [Function.update_self, hempty.left, hempty.right, List.map_nil]
    case neg => rw [Function.update_of_ne hjn, h.shape j (by omega) b hb]

theorem Reads.element {e : Element} (h : Reads ss n (enclosing ss n) built d) (hs : ss[n]? = some (.element e)) :
    ∃ built', Reads ss (n + 1) (enclosing ss (n + 1)) built' (d.add (.element e)) := by
  have hstack : enclosing ss (n + 1) = enclosing ss n := enclosing_succ hs
  have hid : idAt? ss n = none := by rw [idAt?, hs]
  have he : elementAt? ss n = some { e with parent := d.parent? } := by rw [elementAt?, hs, h.parent?]
  have hdeclared : d.diagram.elements ++ [{ e with parent := d.parent? }] =
      (List.range (n + 1)).filterMap (elementAt? ss) := by
    rw [declared_succ, ← h.declared, he, Option.toList_some]
  have hshape := h.shape
  have hopened := h.opened
  rw [hstack]
  cases hpositions : enclosing ss n
  case nil =>
    rw [hpositions] at hopened hshape
    have hadd : d.add (.element e) = { d with diagram := { d.diagram with
        elements := d.diagram.elements ++ [{ e with parent := d.parent? }] } } := by
      rw [Draft.add, Draft.addElement, hopened, List.map_nil]
    rw [hadd]
    refine ⟨built, hpositions ▸ hstack ▸ List.suffix_refl _, hopened, ?_, hdeclared, fun j hj b hb => ?_⟩
    · rw [closedIn_succ hid, ← hpositions]
      exact h.roots
    · have hin : innermost? ss n ≠ some j := by simp [innermost?, hpositions]
      rw [hshape j (lt_of_boundaryAt? hid hj hb) b hb, closedIn_succ hid, elementsIn_succ, if_neg hin, List.append_nil]
  case cons k outer =>
    rw [hpositions] at hopened hshape
    have hadd : d.add (.element e) =
        { diagram := { d.diagram with elements := d.diagram.elements ++ [{ e with parent := d.parent? }] }
          opened := { built k with elements := (built k).elements ++ [{ e with parent := d.parent? }] } ::
            outer.map built } := by
      rw [Draft.add, Draft.addElement, hopened, List.map_cons]
    have hk : k ∉ outer := (List.nodup_cons.mp (hpositions ▸ nodup_of_suffix (List.suffix_refl _))).left
    rw [hadd]
    refine ⟨Function.update built k
      { built k with elements := (built k).elements ++ [{ e with parent := d.parent? }] },
      hpositions ▸ hstack ▸ List.suffix_refl _, ?_, ?_, hdeclared, fun j hj b hb => ?_⟩
    · rw [map_update_cons hk]
    · rw [map_closedIn_update List.mem_cons_self, closedIn_succ hid, ← hpositions]
      exact h.roots
    · have hin : innermost? ss n = some k := by simp [innermost?, hpositions]
      have hjn := lt_of_boundaryAt? hid hj hb
      rw [map_closedIn_update List.mem_cons_self, closedIn_succ hid, elementsIn_succ, hin, he, Option.toList_some]
      by_cases hjk : j = k
      case pos =>
        subst hjk
        rw [Function.update_self, hshape j hjn b hb, if_pos rfl]
      case neg =>
        rw [Function.update_of_ne hjk, hshape j hjn b hb, if_neg (by simpa using Ne.symm hjk), List.append_nil]

theorem Reads.add (h : Reads ss n (enclosing ss n) built d) (hs : ss[n]? = some s) :
    ∃ built', Reads ss (n + 1) (enclosing ss (n + 1)) built' (d.add s) := by
  cases s
  case boundary => exact h.boundary hs
  case element => exact h.element hs
  case close =>
    have hstack : enclosing ss (n + 1) = (enclosing ss n).tail := enclosing_succ hs
    obtain ⟨built', h'⟩ := h.close
    rw [hstack]
    exact ⟨built',
      h'.pass (by rw [idAt?, hs]) (by rw [elementAt?, hs]) (hstack ▸ List.suffix_refl _) rfl rfl rfl⟩
  all_goals
    have hstack : enclosing ss (n + 1) = enclosing ss n := enclosing_succ hs
    rw [hstack]
    exact ⟨built, h.pass (by rw [idAt?, hs]) (by rw [elementAt?, hs]) (hstack ▸ List.suffix_refl _) rfl rfl rfl⟩

-- By induction on the statements read.
theorem reads_foldl (ss : List Statement) (kind : String) (h : n ≤ ss.length) :
    ∃ built, Reads ss n (enclosing ss n) built ((ss.take n).foldl Draft.add { diagram := { kind } }) := by
  induction n
  case zero => exact ⟨fun _ => default, List.suffix_refl _, rfl, rfl, rfl, nofun⟩
  case succ n ih =>
    obtain ⟨built, hread⟩ := ih (by omega)
    have hs : ss[n]? = some ss[n] := List.getElem?_eq_getElem (by omega)
    rw [List.take_add_one, hs, Option.toList_some, List.foldl_concat]
    exact hread.add hs

-- The end of a text closes what is still open.
theorem Reads.finish (h : Reads ss n stack built d) :
    ∃ built' d', Reads ss n [] built' d' ∧ d.finish = d'.diagram := by
  obtain ⟨built', hread⟩ : ∃ built', Reads ss n [] built' (d.opened.foldl (fun d _ => d.close) d) := by
    rw [h.opened]
    have hall (stack : List Nat) (built₀ : Nat → Boundary) : ∀ built d, Reads ss n stack built d →
        ∃ built', Reads ss n [] built' ((stack.map built₀).foldl (fun d _ => d.close) d) := by
      induction stack
      case nil => exact fun built d h => ⟨built, h⟩
      case cons j stack ih =>
        intro built d h
        obtain ⟨built', h'⟩ := h.close
        exact ih built' d.close h'
    exact hall stack built built d h
  exact ⟨built', _, hread, rfl⟩

end Draft

namespace Diagram

open Boundary Statement

variable {ss : List Statement} {built : Nat → Boundary} {j : Nat}

-- A diagram holds the boundaries and elements of statements: each boundary stands inside the innermost one that is
-- open where it starts and holds the elements whose innermost boundary it is, in the order of the text.
structure Nested (ss : List Statement) (built : Nat → Boundary) (d : Diagram) : Prop where
  shape : ∀ j b, boundaryAt? ss j = some b →
    built j = { b with
      elements := elementsIn ss (some j) ss.length
      children := (inside ss (some j) ss.length).map built }
  roots : d.boundaries = (inside ss none ss.length).map built
  preorder : walkAll d.boundaries = (openings ss ss.length).map built
  declared : d.elements = (List.range ss.length).filterMap (elementAt? ss)

theorem walkAll_inside {p : Option Nat}
    (h : ∀ j ∈ inside ss p ss.length, walk (built j) = (subtree ss j).map built) :
    walkAll ((inside ss p ss.length).map built) = ((inside ss p ss.length).flatMap (subtree ss)).map built := by
  rw [walkAll_eq_flatMap, List.flatMap_map, List.map_flatMap]
  exact List.flatMap_congr h

-- By induction from the inside out, a boundary is followed by what stands inside it.
theorem walk_built (h : ∀ j ∈ openings ss ss.length,
      (built j).children = (inside ss (some j) ss.length).map built)
    (hj : j ∈ openings ss ss.length) : walk (built j) = (subtree ss j).map built := by
  obtain ⟨m, hm⟩ : ∃ m, ss.length - j = m := ⟨_, rfl⟩
  induction m using Nat.strong_induction_on generalizing j
  case h m ih =>
    have hinside : ∀ k ∈ inside ss (some j) ss.length, walk (built k) = (subtree ss k).map built := by
      intro k hk
      obtain ⟨hlt, hb, hin⟩ := mem_inside.mp hk
      have hjk := lt_of_innermost? hin
      exact ih _ (by omega) (mem_openings.mpr ⟨hlt, hb⟩) rfl
    rw [walk_eq, h j hj, walkAll_inside hinside, subtree_eq hj, List.map_cons]

theorem walkAll_roots (h : ∀ j ∈ openings ss ss.length,
      (built j).children = (inside ss (some j) ss.length).map built) :
    walkAll ((inside ss none ss.length).map built) = (openings ss ss.length).map built := by
  have hinside : ∀ j ∈ inside ss none ss.length, walk (built j) = (subtree ss j).map built := by
    intro j hj
    obtain ⟨hlt, hb, -⟩ := mem_inside.mp hj
    exact walk_built h (mem_openings.mpr ⟨hlt, hb⟩)
  rw [walkAll_inside hinside, flatMap_subtree]
  simp

theorem ofStatements_nested (kind : String) (ss : List Statement) :
    ∃ built, Nested ss built (ofStatements kind ss) := by
  obtain ⟨_, hread⟩ := Draft.reads_foldl ss kind le_rfl
  rw [List.take_length] at hread
  obtain ⟨built, d, ⟨-, -, hroots, hdeclared, hshape⟩, hfinish⟩ := hread.finish
  have hinside (p : Option Nat) : Draft.closedIn ss [] p ss.length = inside ss p ss.length := by
    simp [Draft.closedIn]
  simp only [hinside] at hroots hshape
  have hall : ∀ j b, boundaryAt? ss j = some b → built j = { b with
      elements := elementsIn ss (some j) ss.length
      children := (inside ss (some j) ss.length).map built } :=
    fun j b hb => hshape j (lt_length_of_boundaryAt? hb) b hb
  refine ⟨built, ?_⟩
  rw [ofStatements, hfinish]
  have hchildren : ∀ j ∈ openings ss ss.length,
      (built j).children = (inside ss (some j) ss.length).map built := by
    intro j hj
    obtain ⟨hlt, hid⟩ := mem_openings.mp hj
    rw [idAt?_eq_map, Option.isSome_map] at hid
    obtain ⟨b, hb⟩ := Option.isSome_iff_exists.mp hid
    rw [hall j b hb]
  exact ⟨hall, hroots, hroots ▸ walkAll_roots hchildren, hdeclared⟩

-- How a text is read as a tree of boundaries with their elements.
theorem ofText_nested (text : String) : ∃ built, Nested (Statement.ofText text) built (ofText text) :=
  ofStatements_nested _ _

end Diagram

end LayeredDiagram.C4
