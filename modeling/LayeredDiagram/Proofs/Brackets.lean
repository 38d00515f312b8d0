import LayeredDiagram.C4.Reading
import Mathlib.Data.List.Infix
import Mathlib.Data.List.Sort
/-!
Matching braces. Which boundaries a line stands in is said without a stack: a boundary is open at a line if no part of
the text in between closes more than it opens. So a brace without an open boundary closes nothing, and a boundary
without a brace stays open. Boundaries that are open at one line are nested, and a stack finds the innermost of them.
-/

namespace LayeredDiagram.C4

namespace Statement

variable {ss part rest : List Statement} {s : Statement} {i j k n : Nat} {stack : List Nat}

def opens : Statement → Bool
  | .boundary .. => true
  | _ => false

def closes : Statement → Bool
  | .close => true
  | _ => false

-- No part at the start closes more boundaries than it opens, so that what was open before stays open.
def Enclosed (ss : List Statement) : Prop :=
  ∀ part ∈ ss.inits, part.countP closes ≤ part.countP opens

instance : DecidablePred Enclosed := fun ss =>
  inferInstanceAs (Decidable (∀ part ∈ ss.inits, part.countP closes ≤ part.countP opens))

theorem enclosed_iff : Enclosed ss ↔ ∀ part, part <+: ss → part.countP closes ≤ part.countP opens := by
  simp only [Enclosed, List.mem_inits]

theorem enclosed_nil : Enclosed [] := by
  simp [Enclosed]

theorem enclosed_concat : Enclosed (ss ++ [s]) ↔
    Enclosed ss ∧ (ss ++ [s]).countP closes ≤ (ss ++ [s]).countP opens := by
  simp only [enclosed_iff, List.prefix_concat_iff]
  constructor
  case mp => exact fun h => ⟨fun part hpart => h part (.inr hpart), h _ (.inl rfl)⟩
  case mpr =>
    rintro ⟨hss, hall⟩ part (rfl | hpart)
    · exact hall
    · exact hss part hpart

theorem enclosed_of_prefix (h : Enclosed ss) (hp : part <+: ss) : Enclosed part :=
  enclosed_iff.mpr fun _ hpart => enclosed_iff.mp h _ (hpart.trans hp)

theorem Enclosed.append (h : Enclosed ss) (hr : Enclosed rest) : Enclosed (ss ++ rest) := by
  induction rest using List.reverseRecOn
  case nil => simpa using h
  case append_singleton rest s ih =>
    obtain ⟨hrest, hcount⟩ := enclosed_concat.mp hr
    have hss := enclosed_iff.mp h ss (List.prefix_refl ss)
    rw [← List.append_assoc, enclosed_concat]
    refine ⟨ih hrest, ?_⟩
    simp only [List.countP_append] at hcount ⊢
    omega

-- The statements after one position and before another.
def between (ss : List Statement) (j i : Nat) : List Statement :=
  (ss.take i).drop (j + 1)

-- The id of the boundary that starts at a position.
def idAt? (ss : List Statement) (j : Nat) : Option String :=
  match ss[j]? with
  | some (.boundary _ id _) => some id
  | _ => none

-- The boundary that starts at one position is open at another one.
def OpenAt (ss : List Statement) (j i : Nat) : Prop :=
  j < i ∧ (idAt? ss j).isSome ∧ Enclosed (between ss j i)

instance : Decidable (OpenAt ss j i) :=
  inferInstanceAs (Decidable (_ ∧ _ ∧ _))

-- The boundaries that are open at a position, innermost first.
def enclosing (ss : List Statement) (i : Nat) : List Nat :=
  (List.range i).reverse.filter fun j => OpenAt ss j i

def innermost? (ss : List Statement) (i : Nat) : Option Nat :=
  (enclosing ss i).head?

def parentAt? (ss : List Statement) (i : Nat) : Option String :=
  (innermost? ss i).bind (idAt? ss)

-- The element at a position, with the id of the innermost boundary around it.
def elementAt? (ss : List Statement) (i : Nat) : Option Element :=
  match ss[i]? with
  | some (.element e) => some { e with parent := parentAt? ss i }
  | _ => none

-- The boundary at a position as it is opened, still empty.
def boundaryAt? (ss : List Statement) (j : Nat) : Option Boundary :=
  match ss[j]? with
  | some (.boundary kind id label) => some { id, label, kind, parent := parentAt? ss j }
  | _ => none

-- The positions of all boundaries among the first statements.
def openings (ss : List Statement) (n : Nat) : List Nat :=
  (List.range n).filter fun j => (idAt? ss j).isSome

-- Of these the ones whose innermost boundary is given; without one they stand outside all others.
def inside (ss : List Statement) (p : Option Nat) (n : Nat) : List Nat :=
  (openings ss n).filter fun j => innermost? ss j = p

-- The elements among the first statements whose innermost boundary is given.
def elementsIn (ss : List Statement) (p : Option Nat) (n : Nat) : List Element :=
  (List.range n).filterMap fun i => if innermost? ss i = p then elementAt? ss i else none

section Positions

theorem idAt?_eq_map (ss : List Statement) (j : Nat) : idAt? ss j = (boundaryAt? ss j).map (·.id) := by
  unfold idAt? boundaryAt?
  split <;> rfl

theorem lt_length_of_boundaryAt? {b : Boundary} (h : boundaryAt? ss j = some b) : j < ss.length := by
  unfold boundaryAt? at h
  split at h
  case h_1 heq => exact (List.getElem?_eq_some_iff.mp heq).1
  case h_2 => cases h

theorem inside_succ (ss : List Statement) (p : Option Nat) (n : Nat) : inside ss p (n + 1) =
    inside ss p n ++ if (idAt? ss n).isSome ∧ innermost? ss n = p then [n] else [] := by
  simp only [inside, openings, List.range_succ, List.filter_append, List.filter_filter]
  simp [List.filter_cons, and_comm]

theorem elementsIn_succ (ss : List Statement) (p : Option Nat) (n : Nat) : elementsIn ss p (n + 1) =
    elementsIn ss p n ++ if innermost? ss n = p then (elementAt? ss n).toList else [] := by
  simp only [elementsIn, List.range_succ, List.filterMap_append]
  split <;> cases he : elementAt? ss n <;> simp [*]

end Positions

section Open

theorem between_concat (h : j < n) (hs : ss[n]? = some s) : between ss j (n + 1) = between ss j n ++ [s] := by
  obtain ⟨hn, -⟩ := List.getElem?_eq_some_iff.mp hs
  rw [between, List.take_add_one, hs, Option.toList_some, List.drop_append_of_le_length (by simp; omega), between]

theorem between_self (ss : List Statement) (j : Nat) : between ss j (j + 1) = [] :=
  List.drop_eq_nil_of_le (by simp)

theorem prefix_between (h : i ≤ n) (ss : List Statement) (j : Nat) : between ss j i <+: between ss j n :=
  (List.take_prefix_take_left h).drop (j + 1)

theorem between_eq (hj : j < i) (hi : i < n) (hs : ss[i]? = some s) :
    between ss j n = between ss j i ++ ([s] ++ between ss i n) := by
  obtain ⟨hlen, rfl⟩ := List.getElem?_eq_some_iff.mp hs
  have htake : ss.take n = ss.take i ++ (ss[i] :: (ss.take n).drop (i + 1)) := by
    have hi' : i < (ss.take n).length := by simp; omega
    have hsplit := (List.take_append_drop i (ss.take n)).symm
    rwa [List.take_take, min_eq_left hi.le, List.drop_eq_getElem_cons hi', List.getElem_take] at hsplit
  rw [between, htake, List.drop_append_of_le_length (by simp; omega), between, between, List.singleton_append]

theorem isSome_idAt? (h : ss[n]? = some s) : (idAt? ss n).isSome = opens s := by
  rw [idAt?, h]
  cases s <;> rfl

theorem closes_of_opens (h : opens s) : closes s = false := by
  cases s
  case boundary => rfl
  all_goals cases h

theorem opens_of_idAt? (h : (idAt? ss j).isSome) : ∃ s, ss[j]? = some s ∧ opens s ∧ ¬closes s := by
  unfold idAt? at h
  split at h
  case h_1 heq => exact ⟨_, heq, rfl, nofun⟩
  case h_2 => cases h

theorem OpenAt.mono (h : OpenAt ss j n) (hj : j < i) (hi : i ≤ n) : OpenAt ss j i :=
  ⟨hj, h.2.1, enclosed_of_prefix h.2.2 (prefix_between hi ss j)⟩

theorem OpenAt.trans (h : OpenAt ss j i) (h' : OpenAt ss i n) : OpenAt ss j n := by
  obtain ⟨s, hs, hopens, hcloses⟩ := opens_of_idAt? h'.2.1
  have hone : Enclosed [s] := enclosed_concat.mpr ⟨enclosed_nil, by simp [hopens, hcloses]⟩
  refine ⟨h.1.trans h'.1, h.2.1, ?_⟩
  rw [between_eq h.1 h'.1 hs]
  exact h.2.2.append (hone.append h'.2.2)

theorem mem_enclosing : j ∈ enclosing ss i ↔ OpenAt ss j i := by
  simp only [enclosing, List.mem_filter, List.mem_reverse, List.mem_range, decide_eq_true_eq]
  exact ⟨And.right, fun h => ⟨h.1, h⟩⟩

theorem pairwise_enclosing (ss : List Statement) (i : Nat) : (enclosing ss i).Pairwise (· > ·) :=
  (List.pairwise_reverse.mpr List.pairwise_lt_range).filter _

theorem innermost?_eq_some : innermost? ss i = some j ↔ OpenAt ss j i ∧ ∀ k, OpenAt ss k i → k ≤ j := by
  have hpair := pairwise_enclosing ss i
  simp only [innermost?, ← mem_enclosing]
  generalize enclosing ss i = positions at hpair
  cases positions
  case nil => simp
  case cons k outer =>
    obtain ⟨hk, -⟩ := List.pairwise_cons.mp hpair
    simp only [List.head?_cons, Option.some_inj, List.mem_cons]
    constructor
    case mp =>
      rintro rfl
      exact ⟨.inl rfl, fun m hm => hm.elim (·.le) fun hm => (hk m hm).le⟩
    case mpr =>
      rintro ⟨hj, hmax⟩
      have hle := hmax k (.inl rfl)
      exact hj.elim Eq.symm fun hj => absurd (hk j hj) hle.not_gt

theorem innermost?_eq_none : innermost? ss i = none ↔ ∀ k, ¬OpenAt ss k i := by
  simp only [innermost?, List.head?_eq_none_iff, List.eq_nil_iff_forall_not_mem, mem_enclosing]

theorem lt_of_innermost? (h : innermost? ss i = some j) : j < i :=
  (innermost?_eq_some.mp h).left.1

end Open

section Stack

-- The boundaries open at a position, innermost first, when braces are read one after the other.
def opened (ss : List Statement) : Nat → List Nat
  | 0 => []
  | n + 1 =>
    match ss[n]? with
    | some (.boundary ..) => n :: opened ss n
    | some .close => (opened ss n).tail
    | _ => opened ss n

theorem lt_of_mem_opened (h : j ∈ opened ss n) : j < n := by
  induction n
  case zero => cases h
  case succ n ih =>
    unfold opened at h
    split at h
    case h_1 =>
      rcases List.mem_cons.mp h with rfl | h
      · exact Nat.lt_succ_self _
      · exact (ih h).trans (Nat.lt_succ_self _)
    case h_2 => exact (ih (List.mem_of_mem_tail h)).trans (Nat.lt_succ_self _)
    case h_3 => exact (ih h).trans (Nat.lt_succ_self _)

theorem pairwise_opened (ss : List Statement) (n : Nat) : (opened ss n).Pairwise (· > ·) := by
  induction n
  case zero => exact List.Pairwise.nil
  case succ n ih =>
    unfold opened
    split
    case h_1 => exact List.pairwise_cons.mpr ⟨fun _ => lt_of_mem_opened, ih⟩
    case h_2 => exact ih.tail
    case h_3 => exact ih

theorem opened_succ (h : ss[n]? = some s) : opened ss (n + 1) =
    if opens s then n :: opened ss n else if closes s then (opened ss n).tail else opened ss n := by
  rw [opened, h]
  cases s <;> rfl

-- A boundary is open at a position, and so are a number of boundaries inside it: what has been opened since then and
-- not been closed.
def HasDepth (ss : List Statement) (j n depth : Nat) : Prop :=
  OpenAt ss j n ∧ (between ss j n).countP opens = (between ss j n).countP closes + depth

theorem OpenAt.hasDepth (h : OpenAt ss j n) : ∃ depth, HasDepth ss j n depth := by
  have hle := enclosed_iff.mp h.2.2 _ (List.prefix_refl _)
  exact ⟨_, h, (Nat.add_sub_of_le hle).symm⟩

theorem hasDepth_self (h : ss[n]? = some s) : HasDepth ss n (n + 1) k ↔ opens s ∧ k = 0 := by
  simp only [HasDepth, OpenAt, between_self, isSome_idAt? h, List.countP_nil]
  constructor
  case mp => exact fun ⟨⟨_, hopens, _⟩, hk⟩ => ⟨hopens, by omega⟩
  case mpr => exact fun ⟨hopens, hk⟩ => ⟨⟨Nat.lt_succ_self n, hopens, enclosed_nil⟩, by omega⟩

theorem hasDepth_succ (hj : j < n) (h : ss[n]? = some s) : HasDepth ss j (n + 1) k ↔
    OpenAt ss j n ∧ (between ss j n).countP opens + [s].countP opens =
      (between ss j n).countP closes + [s].countP closes + k := by
  simp only [HasDepth, OpenAt, between_concat hj h, enclosed_concat, List.countP_append]
  constructor
  case mp => exact fun ⟨⟨_, hb, he, _⟩, hc⟩ => ⟨⟨hj, hb, he⟩, hc⟩
  case mpr => exact fun ⟨⟨_, hb, he⟩, hc⟩ => ⟨⟨by omega, hb, he, by omega⟩, hc⟩

theorem hasDepth_opens (hj : j < n) (h : ss[n]? = some s) (ho : opens s) :
    HasDepth ss j (n + 1) k ↔ ∃ depth, HasDepth ss j n depth ∧ depth + 1 = k := by
  have hcounts : [s].countP opens = 1 ∧ [s].countP closes = 0 := by simp [ho, closes_of_opens ho]
  rw [hasDepth_succ hj h, hcounts.left, hcounts.right]
  constructor
  case mp =>
    rintro ⟨hopen, hc⟩
    obtain ⟨depth, hdepth⟩ := hopen.hasDepth
    exact ⟨depth, hdepth, by have := hdepth.2; omega⟩
  case mpr =>
    rintro ⟨depth, ⟨hopen, hc⟩, rfl⟩
    exact ⟨hopen, by omega⟩

theorem hasDepth_closes (hj : j < n) (h : ss[n]? = some s) (hc : closes s) :
    HasDepth ss j (n + 1) k ↔ HasDepth ss j n (k + 1) := by
  have ho : opens s = false := Bool.eq_false_iff.mpr fun ho => Bool.false_ne_true (closes_of_opens ho ▸ hc)
  have hcounts : [s].countP opens = 0 ∧ [s].countP closes = 1 := by simp [ho, hc]
  rw [hasDepth_succ hj h, hcounts.left, hcounts.right, HasDepth]
  exact and_congr_right fun _ => by omega

theorem hasDepth_other (hj : j < n) (h : ss[n]? = some s) (ho : ¬opens s) (hc : ¬closes s) :
    HasDepth ss j (n + 1) k ↔ HasDepth ss j n k := by
  have hcounts : [s].countP opens = 0 ∧ [s].countP closes = 0 := by simp [ho, hc]
  rw [hasDepth_succ hj h, hcounts.left, hcounts.right, HasDepth]
  exact and_congr_right fun _ => by omega

-- By induction on the position: the stack holds each open boundary at its depth.
theorem getElem?_opened (h : n ≤ ss.length) : (opened ss n)[k]? = some j ↔ HasDepth ss j n k := by
  induction n generalizing k
  case zero => simp [opened, HasDepth, OpenAt]
  case succ n ih =>
    have ih {k : Nat} := ih (k := k) (by omega)
    have hs : ss[n]? = some ss[n] := List.getElem?_eq_getElem (by omega)
    obtain hj | rfl | hj := Nat.lt_trichotomy j n
    case inl =>
      rw [opened_succ hs]
      split
      case isTrue ho =>
        rw [hasDepth_opens hj hs ho]
        cases k
        case zero => simp [hj.ne']
        case succ k => simp [ih]
      case isFalse ho =>
        split
        case isTrue hc => rw [List.getElem?_tail, ih, hasDepth_closes hj hs hc]
        case isFalse hc => rw [ih, hasDepth_other hj hs ho hc]
    case inr.inl =>
      have hnot {k : Nat} : (opened ss j)[k]? ≠ some j := fun hget => (ih.mp hget).1.1.false
      rw [opened_succ hs, hasDepth_self hs]
      split
      case isTrue ho => cases k <;> simp [ho, hnot]
      case isFalse ho => split <;> simp [ho, hnot, List.getElem?_tail]
    case inr.inr =>
      exact iff_of_false (fun hget => (lt_of_mem_opened (List.mem_of_getElem? hget)).not_ge hj)
        fun hdepth => hdepth.1.1.not_ge hj

theorem opened_eq (h : n ≤ ss.length) : opened ss n = enclosing ss n := by
  refine List.Pairwise.eq_of_mem_iff (pairwise_opened ss n) (pairwise_enclosing ss n) fun j => ?_
  rw [mem_enclosing, List.mem_iff_getElem?]
  simp only [getElem?_opened h]
  exact ⟨fun ⟨_, hdepth⟩ => hdepth.left, OpenAt.hasDepth⟩

theorem enclosing_succ (h : ss[n]? = some s) : enclosing ss (n + 1) =
    if opens s then n :: enclosing ss n else if closes s then (enclosing ss n).tail else enclosing ss n := by
  obtain ⟨hn, -⟩ := List.getElem?_eq_some_iff.mp h
  rw [← opened_eq hn.le, ← opened_eq hn, opened_succ h]

-- A surplus brace closes nothing.
example :
    enclosing [.close, .boundary "Boundary" "a" "A", .close, .close, .boundary "Boundary" "b" "B", .title ""] 6 = [4] := by
  decide

end Stack

-- Further out than a boundary stand those that are open where it starts.
theorem innermost?_of_suffix (hs : j :: stack <:+ enclosing ss n) : innermost? ss j = stack.head? := by
  obtain ⟨above, happend⟩ := hs
  obtain ⟨habove, hstack, hrest⟩ := List.pairwise_append.mp (happend ▸ pairwise_enclosing ss n)
  have hopen {i : Nat} : OpenAt ss i n ↔ i ∈ above ++ j :: stack := by rw [happend, mem_enclosing]
  have hjn : OpenAt ss j n := hopen.mpr (by simp)
  have houter : enclosing ss j = stack := by
    refine List.Pairwise.eq_of_mem_iff (pairwise_enclosing ss j) hstack.tail fun i => ?_
    rw [mem_enclosing]
    constructor
    case mp =>
      intro hi
      have hij := hi.1
      rcases List.mem_append.mp (hopen.mp (hi.trans hjn)) with hmem | hmem
      · exact absurd (hrest i hmem j List.mem_cons_self) hij.not_gt
      · exact (List.mem_cons.mp hmem).resolve_left hij.ne
    case mpr =>
      intro hi
      exact (hopen.mpr (by simp [hi])).mono (List.rel_of_pairwise_cons hstack hi) hjn.1.le
  rw [innermost?, houter]

section Tree

variable {p : Option Nat}

-- A boundary and the boundaries inside it at any depth.
def subtree (ss : List Statement) (j : Nat) : List Nat :=
  (openings ss ss.length).filter fun k => k = j ∨ OpenAt ss j k

theorem mem_openings : j ∈ openings ss n ↔ j < n ∧ (idAt? ss j).isSome := by
  simp [openings]

theorem mem_inside : j ∈ inside ss p n ↔ j < n ∧ (idAt? ss j).isSome ∧ innermost? ss j = p := by
  simp [inside, mem_openings, and_assoc]

theorem pairwise_openings (ss : List Statement) (n : Nat) : (openings ss n).Pairwise (· < ·) :=
  List.pairwise_lt_range.filter _

theorem pairwise_inside (ss : List Statement) (p : Option Nat) (n : Nat) : (inside ss p n).Pairwise (· < ·) :=
  (pairwise_openings ss n).filter _

-- Of two boundaries side by side, the one that starts first is closed before the other starts.
theorem not_openAt_of_inside (hi : innermost? ss i = p) (hj : innermost? ss j = p) : ¬OpenAt ss i j := by
  intro hopen
  cases p
  case none => exact innermost?_eq_none.mp hj i hopen
  case some k =>
    have hle := (innermost?_eq_some.mp hj).right i hopen
    have hlt := lt_of_innermost? hi
    omega

-- Whatever stands inside a boundary at any depth stands in one that is directly inside it.
theorem exists_inside (hk : k < n) (hb : (idAt? ss k).isSome) (hp : ∀ j ∈ p, OpenAt ss j k) :
    ∃ i ∈ inside ss p n, k = i ∨ OpenAt ss i k := by
  induction k using Nat.strong_induction_on
  case h k ih =>
    by_cases heq : innermost? ss k = p
    case pos => exact ⟨k, mem_inside.mpr ⟨hk, hb, heq⟩, .inl rfl⟩
    case neg =>
      cases hin : innermost? ss k
      case none =>
        cases p
        case none => exact absurd hin heq
        case some j => exact absurd (hp j rfl) (innermost?_eq_none.mp hin j)
      case some m =>
        obtain ⟨hm, hmax⟩ := innermost?_eq_some.mp hin
        have houter : ∀ j ∈ p, OpenAt ss j m := by
          rintro j rfl
          have hjk := hp j rfl
          have hne : j ≠ m := fun hjm => heq (hjm ▸ hin)
          exact hjk.mono (lt_of_le_of_ne (hmax j hjk) hne) hm.1.le
        obtain ⟨i, hi, him⟩ := ih m hm.1 (hm.1.trans hk) hm.2.1 houter
        refine ⟨i, hi, .inr ?_⟩
        rcases him with rfl | him
        · exact hm
        · exact him.trans hm

-- The boundaries that stand directly inside another one, each followed by what stands inside it, are all the
-- boundaries inside it in the order of the text.
theorem flatMap_subtree (ss : List Statement) (p : Option Nat) : (inside ss p ss.length).flatMap (subtree ss) =
    (openings ss ss.length).filter fun k => ∀ j ∈ p, OpenAt ss j k := by
  have hmem {j k : Nat} : k ∈ subtree ss j ↔ k ∈ openings ss ss.length ∧ (k = j ∨ OpenAt ss j k) := by
    simp [subtree]
  refine List.Pairwise.eq_of_mem_iff (r := (· < ·)) ?_ ((pairwise_openings ss _).filter _) fun k => ?_
  · refine List.pairwise_flatMap.mpr ⟨fun j _ => (pairwise_openings ss _).filter _, ?_⟩
    refine (pairwise_inside ss p _).imp_of_mem ?_
    intro i j hi hj hij x hx y hy
    obtain ⟨-, -, hi⟩ := mem_inside.mp hi
    obtain ⟨-, -, hj⟩ := mem_inside.mp hj
    have hjy : j ≤ y := (hmem.mp hy).right.elim (fun h => h.ge) fun h => h.1.le
    have hxj : x < j := by
      rcases (hmem.mp hx).right with rfl | hx
      · exact hij
      · exact lt_of_not_ge fun hjx => not_openAt_of_inside hi hj (hx.mono hij hjx)
    exact hxj.trans_le hjy
  · simp only [List.mem_flatMap, hmem, List.mem_filter, decide_eq_true_eq]
    constructor
    case mp =>
      rintro ⟨i, hi, hk, hik⟩
      refine ⟨hk, fun j hj => ?_⟩
      obtain ⟨-, -, hin⟩ := mem_inside.mp hi
      have hji : OpenAt ss j i := (innermost?_eq_some.mp (hin.trans hj)).left
      rcases hik with rfl | hik
      · exact hji
      · exact hji.trans hik
    case mpr =>
      rintro ⟨hk, hp⟩
      obtain ⟨hlt, hb⟩ := mem_openings.mp hk
      obtain ⟨i, hi, hik⟩ := exists_inside hlt hb hp
      exact ⟨i, hi, hk, hik⟩

theorem subtree_eq (h : j ∈ openings ss ss.length) :
    subtree ss j = j :: (inside ss (some j) ss.length).flatMap (subtree ss) := by
  rw [flatMap_subtree]
  refine List.Pairwise.eq_of_mem_iff (r := (· < ·)) ((pairwise_openings ss _).filter _) ?_ fun k => ?_
  · refine List.pairwise_cons.mpr ⟨fun k hk => ?_, (pairwise_openings ss _).filter _⟩
    simp only [List.mem_filter, decide_eq_true_eq] at hk
    exact (hk.right j rfl).1
  · simp only [subtree, List.mem_filter, List.mem_cons, decide_eq_true_eq, Option.mem_def, Option.some_inj,
      forall_eq']
    grind

end Tree

end Statement

end LayeredDiagram.C4
