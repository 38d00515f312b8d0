import LayeredDiagram.Proofs.Boundaries
import LayeredDiagram.Proofs.Enclosure
import Mathlib.Data.List.Find
/-!
Who owns the elements of a C4 diagram. Every boundary lists the elements declared directly inside it, repeated ones too,
and an element belongs to the first boundary that lists its id. That is the boundary around its first declaration,
unless an earlier boundary holds another one.
-/

namespace LayeredDiagram.C4

open LayeredDiagram.Group

variable {es : List Element} {b c : Boundary} {bs cs : List Boundary} {id : String}

namespace Boundary

-- The ids of the boundaries of a forest with the elements directly inside, parents before children.
def filing (bs : List Boundary) : List (String × List Element) :=
  (walkAll bs).map fun b => (b.id, b.elements)

theorem filing_nil : filing [] = [] :=
  rfl

theorem filing_cons : filing (b :: bs) = (b.id, b.elements) :: (filing b.children ++ filing bs) := by
  simp [filing, walkAll, walk_eq]

theorem filing_append : filing (bs ++ cs) = filing bs ++ filing cs := by
  simp [filing, walkAll_append]

end Boundary

-- Each id is listed with the elements that have it as their parent.
structure Filed (es : List Element) (files : List (String × List Element)) : Prop where
  lists : ∀ f ∈ files, ∀ e, e ∈ f.2 ↔ e ∈ es ∧ e.parent = some f.1
  parents : ∀ e ∈ es, ∀ p ∈ e.parent, p ∈ files.map Prod.fst

theorem Filed.of_perm {files files' : List (String × List Element)} (h : Filed es files) (hp : files'.Perm files) :
    Filed es files' where
  lists f hf := h.lists f (hp.subset hf)
  parents e he p hp' := (hp.map Prod.fst).symm.subset (h.parents e he p hp')

-- A new element is added to the file of its parent.
theorem Filed.add {files : List (String × List Element)} {e : Element} (h : Filed es ((id, c.elements) :: files))
    (hn : id ∉ files.map Prod.fst) (he : e.parent = some id) :
    Filed (es ++ [e]) ((id, c.elements ++ [e]) :: files) where
  lists f hf x := by
    rcases List.mem_cons.mp hf with rfl | hf
    · have := h.lists _ List.mem_cons_self x
      simp only [List.mem_append, List.mem_singleton] at this ⊢
      grind
    · have hne : f.1 ≠ id := fun heq => hn (heq ▸ List.mem_map_of_mem hf)
      have := h.lists f (List.mem_cons_of_mem _ hf) x
      simp only [List.mem_append, List.mem_singleton]
      grind
  parents x hx p hp := by
    rcases List.mem_append.mp hx with hx | hx
    · exact h.parents x hx p hp
    · obtain rfl := List.mem_singleton.mp hx
      simp_all

theorem Filed.add_outside {files : List (String × List Element)} {e : Element} (h : Filed es files)
    (he : e.parent = none) : Filed (es ++ [e]) files where
  lists f hf x := by
    have := h.lists f hf x
    simp only [List.mem_append, List.mem_singleton]
    grind
  parents x hx p hp := by
    rcases List.mem_append.mp hx with hx | hx
    · exact h.parents x hx p hp
    · obtain rfl := List.mem_singleton.mp hx
      simp_all

-- A new file starts empty.
theorem Filed.open {files : List (String × List Element)} (h : Filed es files) (hn : id ∉ files.map Prod.fst) :
    Filed es ((id, []) :: files) where
  lists f hf x := by
    rcases List.mem_cons.mp hf with rfl | hf
    · simp only [List.not_mem_nil, false_iff, not_and]
      exact fun hx hp => hn (h.parents x hx id hp)
    · exact h.lists f hf x
  parents x hx p hp := List.mem_cons_of_mem _ (h.parents x hx p hp)

namespace Draft

open Boundary

variable {d : Draft}

-- The boundaries read so far, whether closed or open, with their elements.
def filing (d : Draft) : List (String × List Element) :=
  Boundary.filing (d.opened ++ d.diagram.boundaries)

theorem length_opened_close (d : Draft) : d.close.opened.length = d.opened.length - 1 := by
  unfold close
  split <;> simp_all

theorem filing_close (d : Draft) : d.close.filing.Perm d.filing := by
  obtain ⟨diagram, opened⟩ := d
  rw [List.perm_iff_count]
  intro f
  match opened with
  | [] => rfl
  | [b] =>
    simp only [filing, Draft.close, filing_append, filing_cons, filing_nil, List.count_append, List.count_cons,
      List.count_nil, List.nil_append]
    omega
  | b :: p :: outer =>
    simp only [filing, Draft.close, filing_append, filing_cons, filing_nil, List.cons_append, List.count_append,
      List.count_cons, List.count_nil]
    omega

theorem filing_finish (d : Draft) : (Boundary.filing d.finish.boundaries).Perm d.filing := by
  have hall (bs : List Boundary) (d : Draft) (hd : d.opened.length = bs.length) :
      (bs.foldl (fun d _ => d.close) d).opened = [] ∧ (bs.foldl (fun d _ => d.close) d).filing.Perm d.filing := by
    induction bs generalizing d
    case nil => exact ⟨List.length_eq_zero_iff.mp hd, .refl _⟩
    case cons b bs ih =>
      obtain ⟨hopened, hfiling⟩ := ih d.close (by simp [length_opened_close, hd])
      exact ⟨hopened, hfiling.trans (filing_close d)⟩
  obtain ⟨hopened, hfiling⟩ := hall d.opened d rfl
  simpa [filing, finish, hopened] using hfiling

-- Statements only add boundaries.
theorem nodup_of_add {s : Statement} (h : ((d.add s).filing.map Prod.fst).Nodup) : (d.filing.map Prod.fst).Nodup := by
  cases s
  case boundary kind id label =>
    simp only [filing, Draft.add, List.cons_append, filing_cons, List.map_cons, List.map_append, List.nodup_cons] at h
    simpa [filing, filing_nil] using h.right
  case close => exact ((filing_close d).map Prod.fst).nodup_iff.mp h
  case element e =>
    obtain ⟨diagram, opened⟩ := d
    cases opened
    case nil => exact h
    case cons b outer => simpa [filing, Draft.add, addElement, filing_cons] using h
  case title => exact h
  case relationship => exact h

theorem filed_add {s : Statement} (h : Filed d.diagram.elements d.filing) (hn : ((d.add s).filing.map Prod.fst).Nodup) :
    Filed (d.add s).diagram.elements (d.add s).filing := by
  cases s
  case title => exact h
  case boundary kind id label =>
    simp only [filing, Draft.add, List.cons_append, filing_cons, filing_nil, List.map_cons, List.nodup_cons,
      List.nil_append] at hn ⊢
    exact h.open hn.left
  case close => exact (elements_close d).symm ▸ h.of_perm (filing_close d)
  case element e =>
    obtain ⟨diagram, opened⟩ := d
    cases opened
    case nil => exact h.add_outside rfl
    case cons b outer =>
      simp only [filing, Draft.add, addElement, List.cons_append, filing_cons, List.map_cons, List.nodup_cons] at h hn ⊢
      exact h.add hn.left rfl
  case relationship => exact h

theorem nodup_of_foldl {statements : List Statement} (d : Draft)
    (h : ((statements.foldl add d).filing.map Prod.fst).Nodup) : (d.filing.map Prod.fst).Nodup := by
  induction statements generalizing d
  case nil => exact h
  case cons s statements ih => exact nodup_of_add (ih _ h)

theorem filed_foldl {statements : List Statement} {d : Draft} (h : Filed d.diagram.elements d.filing)
    (hn : ((statements.foldl add d).filing.map Prod.fst).Nodup) :
    Filed (statements.foldl add d).diagram.elements (statements.foldl add d).filing := by
  induction statements generalizing d
  case nil => exact h
  case cons s statements ih => exact ih (filed_add h (nodup_of_foldl _ hn)) hn

end Draft

namespace Diagram

open Boundary

theorem filed_ofStatements {kind : String} {statements : List Statement}
    (hn : ((walkAll (ofStatements kind statements).boundaries).map (·.id)).Nodup) :
    Filed (ofStatements kind statements).elements (filing (ofStatements kind statements).boundaries) := by
  have helements := (statements.foldl Draft.add { diagram := { kind } }).finish_lists.left
  have hfiling := (statements.foldl Draft.add { diagram := { kind } }).filing_finish
  have hnew : Filed (Draft.mk { kind } []).diagram.elements (Draft.mk { kind } []).filing := by
    constructor <;> simp [Draft.filing, filing_nil]
  have hids : ((filing (ofStatements kind statements).boundaries).map Prod.fst).Nodup := by
    simpa [filing, Function.comp_def] using hn
  have hfiled := Draft.filed_foldl hnew ((hfiling.map Prod.fst).nodup_iff.mp hids)
  exact helements ▸ hfiled.of_perm hfiling

-- The first boundary, an outer one before those inside, with a declaration of an id directly inside.
def holder? (d : Diagram) (id : String) : Option String :=
  ((walkAll d.boundaries).map (·.id)).find? fun b => d.elements.any fun e => e.id == id && e.parent == some b

theorem owner?_eq_holder? {d : Diagram} (h : Filed d.elements (filing d.boundaries)) (id : String) :
    (owner? (forest [] d.groups) id).map (·.id) = d.holder? id := by
  have hentries := congrArg (fun l => (l.find? fun x : String × List String => x.2.contains id).map Prod.fst)
    (forest_toGroups d.boundaries [])
  simp only [List.find?_map, Option.map_map, Function.comp_def] at hentries
  have hlists : ∀ b ∈ walkAll d.boundaries, (b.elements.map (·.id)).contains id =
      d.elements.any fun e => e.id == id && e.parent == some b.id := by
    intro b hb
    have hfile := h.lists (b.id, b.elements) (List.mem_map_of_mem hb)
    rw [Bool.eq_iff_iff, List.contains_iff_mem, List.mem_map, List.any_eq_true]
    simp only [Bool.and_eq_true, beq_iff_eq, hfile]
    grind
  rw [List.find?_congr hlists] at hentries
  rw [holder?, List.find?_map]
  exact hentries

theorem find?_go {seen : List String} {e : Element} (he : e ∈ uniqueElements.go seen es) :
    e.id ∉ seen ∧ es.find? (·.id == e.id) = some e := by
  induction es generalizing seen
  case nil => cases he
  case cons c es ih =>
    rw [uniqueElements.go] at he
    split at he
    case isTrue hc =>
      obtain ⟨hseen, hfind⟩ := ih he
      have hne : c.id ≠ e.id := fun heq => hseen (heq ▸ List.contains_iff_mem.mp hc)
      exact ⟨hseen, by rw [List.find?_cons_of_neg (by simpa using hne), hfind]⟩
    case isFalse hc =>
      rcases List.mem_cons.mp he with rfl | he
      · exact ⟨fun hmem => hc (List.contains_iff_mem.mpr hmem), List.find?_cons_of_pos (by simp)⟩
      · obtain ⟨hseen, hfind⟩ := ih he
        simp only [List.mem_cons, not_or] at hseen
        exact ⟨hseen.right, by rw [List.find?_cons_of_neg (by simpa using Ne.symm hseen.left), hfind]⟩

-- What is found first stands before everything else that could be found.
theorem find?_eq_some_iff_precedes {l : List String} {p : String → Bool} (hn : l.Nodup) {a : String} (ha : a ∈ l)
    (hp : p a) : l.find? p = some a ↔ ∀ b ∈ l, p b → b = a ∨ [a, b].Sublist l := by
  induction l
  case nil => cases ha
  case cons c l ih =>
    obtain ⟨hc, hn⟩ := List.nodup_cons.mp hn
    rcases List.mem_cons.mp ha with rfl | ha
    · rw [List.find?_cons_of_pos hp]
      simp only [true_iff, List.forall_mem_cons, true_or, implies_true, true_and]
      exact fun b hb _ => .inr (List.cons_sublist_cons.mpr (List.singleton_sublist.mpr hb))
    · have hne : c ≠ a := fun heq => hc (heq ▸ ha)
      have hkeep (b : String) : [a, b].Sublist (c :: l) ↔ [a, b].Sublist l :=
        ⟨fun h => (List.sublist_cons_iff.mp h).resolve_right fun ⟨r, hr, _⟩ => hne (List.cons.inj hr).left.symm,
          .cons c⟩
      simp only [hkeep, List.forall_mem_cons]
      by_cases hpc : p c
      case pos =>
        rw [List.find?_cons_of_pos hpc]
        refine iff_of_false (fun heq => hne (Option.some.inj heq)) fun h => ?_
        exact (h.left hpc).elim hne fun hsub => hc (hsub.subset (by simp))
      case neg =>
        rw [List.find?_cons_of_neg hpc, ih hn ha]
        exact ⟨fun h => ⟨fun hp => absurd hp hpc, h⟩, And.right⟩

-- The first declaration decides unless an earlier boundary holds another one.
theorem holder?_eq_parent_iff {d : Diagram} (h : Filed d.elements (filing d.boundaries))
    (hn : ((walkAll d.boundaries).map (·.id)).Nodup) {e : Element} (he : e ∈ d.elements) :
    d.holder? e.id = e.parent ↔ ∀ x ∈ d.elements, x.id = e.id →
      x.parent = e.parent ∨ ∃ b ∈ e.parent, ∀ c ∈ x.parent, [b, c].Sublist ((walkAll d.boundaries).map (·.id)) := by
  have hids : (filing d.boundaries).map Prod.fst = (walkAll d.boundaries).map (·.id) := by
    simp [filing, Function.comp_def]
  have hparents := h.parents
  rw [hids] at hparents
  cases hp : e.parent
  case none =>
    simp only [holder?, List.find?_eq_none, List.any_eq_true, Bool.and_eq_true, beq_iff_eq]
    constructor
    · intro hnone x hx hid
      refine .inl (Option.eq_none_iff_forall_not_mem.mpr fun b hb => ?_)
      exact hnone b (hparents x hx b hb) ⟨x, hx, hid, hb⟩
    · rintro hall b - ⟨x, hx, hid, hb⟩
      simpa [hb] using hall x hx hid
  case some b =>
    rw [holder?, find?_eq_some_iff_precedes hn (hparents e he b hp) (by simpa using ⟨e, he, rfl, hp⟩)]
    simp only [List.any_eq_true, Bool.and_eq_true, beq_iff_eq]
    constructor
    · intro hall x hx hid
      refine Classical.or_iff_not_imp_left.mpr fun hne => ⟨b, rfl, fun c hc => ?_⟩
      refine (hall c (hparents x hx c hc) ⟨x, hx, hid, hc⟩).resolve_left fun heq => hne ?_
      exact (Option.mem_def.mp hc).trans (congrArg some heq)
    · rintro hall c - ⟨x, hx, hid, hc⟩
      rcases hall x hx hid with heq | ⟨b', hb', hsub⟩
      · exact .inl (Option.some.inj (hc.symm.trans heq))
      · exact .inr (Option.some.inj hb' ▸ hsub c hc)

end Diagram

section Sizes

open Text

theorem isMeasure_natMul {q : Rat} (n : Nat) (h : IsMeasure q) : IsMeasure (n * q) := by
  obtain ⟨m, hm⟩ := h.decimals
  refine ⟨mul_nonneg (Nat.cast_nonneg _) h.nonneg, n * m, ?_⟩
  push_cast
  rw [← hm, mul_assoc]

theorem isMeasure_estimatedWidth {size : Rat} {weight : Int} (h : IsMeasure (size * widthRatio weight)) (s : String) :
    IsMeasure (estimatedWidth s size weight) := by
  rw [estimatedWidth]
  split
  case isTrue => exact ⟨by norm_num, 0, by norm_num⟩
  case isFalse => exact mul_assoc (_ : Rat) size _ ▸ isMeasure_natMul _ h

theorem isMeasure_larger {a b : Rat} (ha : IsMeasure a) (hb : IsMeasure b) : IsMeasure (Scalar.larger a b) := by
  rw [Scalar.larger_eq_max]
  exact ⟨le_max_of_le_left ha.nonneg, ha.decimals.max hb.decimals⟩

theorem isMeasure_label : IsMeasure ((13 : Rat) * widthRatio 500) :=
  ⟨by norm_num [widthRatio], 71500000, by norm_num [widthRatio]⟩

theorem isMeasure_technology : IsMeasure ((10 : Rat) * widthRatio 400) :=
  ⟨by norm_num [widthRatio], 52000000, by norm_num [widthRatio]⟩

theorem isMeasure_description : IsMeasure ((11 : Rat) * widthRatio 400) :=
  ⟨by norm_num [widthRatio], 57200000, by norm_num [widthRatio]⟩

theorem isMeasure_lineWidths (e : Element) : ∀ w ∈ e.lineWidths (Config.standard : Config Rat), IsMeasure w := by
  intro w hw
  simp only [Element.lineWidths, List.cons_append, List.mem_cons, List.mem_append, Option.mem_toList,
    Option.map_eq_some_iff] at hw
  rcases hw with rfl | ⟨t, _, rfl⟩ | ⟨t, _, rfl⟩
  · exact isMeasure_estimatedWidth isMeasure_label _
  · exact isMeasure_estimatedWidth isMeasure_technology _
  · exact isMeasure_estimatedWidth isMeasure_description _

theorem isMeasure_size (e : Element) :
    IsMeasure (e.size (Config.standard : Config Rat)).1 ∧ IsMeasure (e.size (Config.standard : Config Rat)).2 := by
  unfold Element.size
  split
  case isTrue => exact ⟨.ofNat 160, .ofNat 180⟩
  case isFalse =>
    have hwidest : IsMeasure ((Scalar.largest? (e.lineWidths (Config.standard : Config Rat))).getD 0) := by
      cases h : Scalar.largest? (e.lineWidths (Config.standard : Config Rat))
      case none => exact .zero
      case some w => exact isMeasure_lineWidths e w (Scalar.mem_of_largest? h)
    have hpadX : IsMeasure ((16 : Rat) * 2) := isMeasure_natMul 16 (.ofNat 2)
    have hpadY : IsMeasure ((12 : Rat) * 2) := isMeasure_natMul 12 (.ofNat 2)
    exact ⟨isMeasure_larger (.ofNat 160) (hwidest.add hpadX),
      isMeasure_larger (.ofNat 80) ((isMeasure_natMul _ (.ofNat 18)).add hpadY)⟩

theorem measured_toGraph (d : Diagram) : Measured (d.toGraph (Config.standard : Config Rat)).nodes
    (d.toGraph (Config.standard : Config Rat)).edges (d.toGraph (Config.standard : Config Rat)).spacing where
  nodes n hn := by
    obtain ⟨e, _, rfl⟩ := List.mem_map.mp hn
    exact isMeasure_size e
  edges e he := by
    obtain ⟨r, _, he⟩ := List.mem_flatMap.mp he
    have hwidth (s : String) : IsMeasure (Fonts.labelWidth (Fonts.standard : Fonts Rat) s) :=
      (isMeasure_estimatedWidth isMeasure_description s).add (.ofNat 8)
    have hheight : IsMeasure (Fonts.labelHeight (Fonts.standard : Fonts Rat)) := (IsMeasure.ofNat 11).add (.ofNat 6)
    rcases Relationship.eq_of_mem_edges he with rfl | rfl | rfl
    · exact SizedEdge.isMeasure_labelled (hwidth _) hheight
    · exact SizedEdge.isMeasure_ordering
    · exact SizedEdge.isMeasure_ordering
  spacing := by
    simp [Spacing.lengths, Diagram.toGraph, Config.spacing, Config.standard, Spacing.standard, IsMeasure.ofNat]

end Sizes

namespace Diagram

open Boundary

variable {text : String}

theorem exists_layout_drawsGroups (hn : ((walkAll (ofText text).boundaries).map (·.id)).Nodup) (sweeps : Nat) :
    ∃ p, ((ofText text).toGraph (Config.standard : Config Rat)).layout sweeps = .ok p ∧
      DrawsGroups ((ofText text).toGraph Config.standard) p := by
  have hw := wellFormed (within_ofStatements _ _) hn (Config.standard : Config Rat)
  obtain ⟨p, hp⟩ := SizedGraph.exists_layout_of_nodes rfl (fun _ => hw) sweeps
  exact ⟨p, hp, SizedGraph.layout_drawsGroups hp (measured_toGraph _) rfl⟩

-- Every element belongs to the boundary that holds its id, and is drawn there. That is the boundary around its first
-- declaration if and only if no boundary before that one, or none at all, holds another declaration.
theorem layout_owners (hn : ((walkAll (ofText text).boundaries).map (·.id)).Nodup) (sweeps : Nat) :
    ∃ p, ((ofText text).toGraph (Config.standard : Config Rat)).layout sweeps = .ok p ∧
      DrawsGroups ((ofText text).toGraph Config.standard) p ∧
      ∀ n ∈ p.nodes, ∃ e, (ofText text).elements.find? (·.id == n.id) = some e ∧
        (owner? (forest [] (ofText text).groups) n.id).map (·.id) = (ofText text).holder? n.id ∧
        ((ofText text).holder? n.id = e.parent ↔ ∀ x ∈ (ofText text).elements, x.id = n.id → x.parent = e.parent ∨
          ∃ b ∈ e.parent, ∀ c ∈ x.parent, [b, c].Sublist ((walkAll (ofText text).boundaries).map (·.id))) := by
  have hf : Filed (ofText text).elements (filing (ofText text).boundaries) := filed_ofStatements hn
  obtain ⟨p, hp, hdraws⟩ := exists_layout_drawsGroups hn sweeps
  refine ⟨p, hp, hdraws, fun n hmem => ?_⟩
  obtain ⟨e, he, hid⟩ : ∃ e ∈ (ofText text).uniqueElements, e.id = n.id := by
    have hids := congrArg (List.map Prod.fst) hdraws.nodes
    simp only [List.map_map, Function.comp_def, map_id_nodes] at hids
    exact List.mem_map.mp (hids ▸ List.mem_map_of_mem hmem)
  have hfind := (find?_go he).right
  rw [← hid]
  exact ⟨e, hfind, owner?_eq_holder? hf e.id, holder?_eq_parent_iff hf hn (List.mem_of_find?_eq_some hfind)⟩

-- A system declared inside a boundary, then outside of all, then inside another one.
def declaredThrice : String :=
  "C4Context
  Boundary(a, \"Shop\") \x7b
    System(s, \"Stock\")
  \x7d
  System(s, \"Store\")
  Boundary(b, \"Yard\") \x7b
    System(s, \"Pile\")
  \x7d"

set_option maxRecDepth 2000 in
theorem layout_owners_declaredThrice : ((walkAll (ofText declaredThrice).boundaries).map (·.id)).Nodup ∧
    ∃ p, ((ofText declaredThrice).toGraph (Config.standard : Config Rat)).layout 4 = .ok p ∧
      DrawsGroups ((ofText declaredThrice).toGraph Config.standard) p ∧
      ∀ n ∈ p.nodes, n.id = "s" ∧ (owner? (forest [] (ofText declaredThrice).groups) n.id).map (·.id) = some "a" := by
  have hread : ofText declaredThrice = {
      kind := "C4Context"
      elements := [{ kind := "System", id := "s", label := "Stock", parent := some "a" },
        { kind := "System", id := "s", label := "Store" },
        { kind := "System", id := "s", label := "Pile", parent := some "b" }]
      boundaries := [
        { id := "a", label := "Shop", kind := "Boundary"
          elements := [{ kind := "System", id := "s", label := "Stock", parent := some "a" }] },
        { id := "b", label := "Yard", kind := "Boundary"
          elements := [{ kind := "System", id := "s", label := "Pile", parent := some "b" }] }] } := rfl
  have hn : ((walkAll (ofText declaredThrice).boundaries).map (·.id)).Nodup := by rw [hread]; decide
  obtain ⟨p, hp, hdraws, howners⟩ := layout_owners hn 4
  refine ⟨hn, p, hp, hdraws, fun n hmem => ?_⟩
  generalize ofText declaredThrice = d at *
  have hid : n.id = "s" := by
    have hids := congrArg (List.map Prod.fst) hdraws.nodes
    simp only [List.map_map, Function.comp_def, map_id_nodes] at hids
    have hone : d.uniqueElements.map (·.id) = ["s"] := by subst hread; decide
    exact List.mem_singleton.mp (hone ▸ hids ▸ List.mem_map_of_mem (f := (·.id)) hmem)
  obtain ⟨e, hfind, howner, hfirst⟩ := howners n hmem
  rw [hid] at hfind howner hfirst ⊢
  have hparent : e.parent = some "a" := by
    have hstock : d.elements.find? (·.id == "s") =
        some { kind := "System", id := "s", label := "Stock", parent := some "a" } := by subst hread; decide
    rw [← Option.some.inj (hstock.symm.trans hfind)]
  refine ⟨rfl, howner.trans ((hfirst.mpr ?_).trans hparent)⟩
  rw [hparent]
  subst hread
  decide

-- A person declared outside, then inside a boundary, which takes it in.
def declaredAgain : String :=
  "C4Context
  Person(p, \"Reader\")
  Boundary(b, \"Shop\") \x7b
    Person(p, \"Guest\")
  \x7d"

theorem layout_owners_declaredAgain : ((walkAll (ofText declaredAgain).boundaries).map (·.id)).Nodup ∧
    (∃ e, (ofText declaredAgain).elements.find? (·.id == "p") = some e ∧ e.parent = none) ∧
    (owner? (forest [] (ofText declaredAgain).groups) "p").map (·.id) = some "b" ∧
    ∃ p, ((ofText declaredAgain).toGraph (Config.standard : Config Rat)).layout 4 = .ok p ∧
      ∃ g ∈ p.allGroups, ∃ n ∈ p.nodes, g.id = "b" ∧ n.id = "p" ∧ Bounds.Frames 30 28 g.bounds n.bounds := by
  have hread : ofText declaredAgain = {
      kind := "C4Context"
      elements := [{ kind := "Person", id := "p", label := "Reader" },
        { kind := "Person", id := "p", label := "Guest", parent := some "b" }]
      boundaries := [
        { id := "b", label := "Shop", kind := "Boundary"
          elements := [{ kind := "Person", id := "p", label := "Guest", parent := some "b" }] }] } := rfl
  have hn : ((walkAll (ofText declaredAgain).boundaries).map (·.id)).Nodup := by rw [hread]; decide
  obtain ⟨p, hp, hdraws⟩ := exists_layout_drawsGroups hn 4
  generalize ofText declaredAgain = d at *
  have hfirst : d.elements.find? (·.id == "p") = some { kind := "Person", id := "p", label := "Reader" } := by
    subst hread; decide
  have howner : (owner? (forest [] d.groups) "p").map (·.id) = some "b" := by subst hread; decide +kernel
  have hgroup : "b" ∈ (forest [] d.groups).map (·.id) := by subst hread; decide +kernel
  have hnode : "p" ∈ d.uniqueElements.map (·.id) := by subst hread; decide
  refine ⟨hn, ⟨_, hfirst, rfl⟩, howner, p, hp, ?_⟩
  rw [← map_id_nodes _ (Config.standard : Config Rat)] at hnode
  have hdrawn : "b" ∈ p.allGroups.map (·.id) := by
    rw [hdraws.groups fun hnil => by simp [hnil] at hnode]
    exact hgroup
  have hids := congrArg (List.map Prod.fst) hdraws.nodes
  simp only [List.map_map, Function.comp_def] at hids
  obtain ⟨g, hg, hgid⟩ := List.mem_map.mp hdrawn
  obtain ⟨n, hn', hnid⟩ := List.mem_map.mp (hids ▸ hnode)
  obtain ⟨e, he, heid⟩ := Option.map_eq_some_iff.mp howner
  refine ⟨g, hg, n, hn', hgid, hnid, ?_⟩
  exact hdraws.frames_node e (List.mem_of_find?_eq_some he) g hg (hgid.trans heid.symm) n hn' (hnid ▸ he)

end Diagram

end LayeredDiagram.C4
