import LayeredDiagram.Layout.Orient
import Mathlib.Data.List.Basic
import Mathlib.Data.List.Forall2
import Mathlib.Data.List.Nodup
import Mathlib.Logic.Relation
import Mathlib.Order.Basic
/-!
The upper and lower ends that edges get. The arcs from upper to lower ends never close a cycle: the search
along arcs finds exactly the vertices that can be reached, and an arc is only added from a vertex that its
other end does not lead back to.
-/

namespace LayeredDiagram

variable {κ α : Type} {arcs : List (κ × κ)} {u v : κ}

-- No vertex leads back to itself.
def Acyclic (r : κ → κ → Prop) : Prop :=
  ∀ v, ¬Relation.TransGen r v v

-- A relation along which some measure grows has no cycle.
theorem Acyclic.of_measure {β : Type} [Preorder β] {r : κ → κ → Prop} (m : κ → β)
    (h : ∀ u v, r u v → m u < m v) : Acyclic r := by
  intro v hv
  have hm : ∀ {w}, Relation.TransGen r v w → m v < m w := by
    intro w hw
    induction hw
    case single hw => exact h _ _ hw
    case tail _ hw hi => exact hi.trans (h _ _ hw)
  exact lt_irrefl _ (hm hv)

-- One vertex follows another along an arc.
def Follows (arcs : List (κ × κ)) (u v : κ) : Prop :=
  (u, v) ∈ arcs

-- A path of length zero or more leads from one vertex to another.
def Reaches (arcs : List (κ × κ)) : κ → κ → Prop :=
  Relation.ReflTransGen (Follows arcs)

-- A path over one arc more either does without it, or it reaches the arc's tail and leaves from its head.
theorem transGen_concat {x y : κ} (h : Relation.TransGen (Follows (arcs ++ [(u, v)])) x y) :
    Relation.TransGen (Follows arcs) x y ∨ (Reaches arcs x u ∧ Reaches arcs v y) := by
  have step {x y : κ} (h : Follows (arcs ++ [(u, v)]) x y) : Follows arcs x y ∨ (x = u ∧ y = v) := by
    simpa [Follows] using h
  induction h
  case single h =>
    cases step h
    case inl h => exact .inl (.single h)
    case inr h => exact .inr ⟨h.left ▸ .refl, h.right ▸ .refl⟩
  case tail h hi =>
    cases step h <;> cases hi
    case inl.inl h hi => exact .inl (hi.tail h)
    case inl.inr h hi => exact .inr ⟨hi.left, hi.right.tail h⟩
    case inr.inl h hi => exact .inr ⟨h.left ▸ hi.to_reflTransGen, h.right ▸ .refl⟩
    case inr.inr h hi => exact .inr ⟨hi.left, h.right ▸ .refl⟩

theorem Acyclic.concat (ha : Acyclic (Follows arcs)) (h : ¬Reaches arcs v u) :
    Acyclic (Follows (arcs ++ [(u, v)])) := by
  intro x hx
  cases transGen_concat hx
  case inl hx => exact ha x hx
  case inr hx => exact h (hx.right.trans hx.left)

theorem Acyclic.not_reaches (ha : Acyclic (Follows arcs)) (hn : u ≠ v) (h : Reaches arcs u v) :
    ¬Reaches arcs v u := by
  intro hv
  cases Relation.reflTransGen_iff_eq_or_transGen.mp h
  case inl h => exact hn h.symm
  case inr h => exact ha u (h.trans_left hv)

namespace Reach

variable [DecidableEq κ] {found : List κ} {steps : Nat}

theorem subset_grow : found ⊆ grow arcs steps found := by
  induction steps generalizing found
  case zero => simp [grow]
  case succ n hi =>
    simp only [grow]
    split
    case isTrue => simp
    case isFalse => exact List.Subset.trans (List.subset_append_left _ _) hi

-- What one step finds: the heads of arcs out of the set that are not in it yet.
theorem mem_next {w : κ} :
    w ∈ ((arcs.filter fun a => a.1 ∈ found ∧ a.2 ∉ found).map (·.2)).eraseDups ↔
      (∃ u ∈ found, Follows arcs u w) ∧ w ∉ found := by
  simp only [List.mem_eraseDups, List.mem_map, List.mem_filter, decide_eq_true_eq, Prod.exists, Follows]
  grind

theorem exists_reaches_of_mem_grow (h : v ∈ grow arcs steps found) : ∃ u ∈ found, Reaches arcs u v := by
  induction steps generalizing found
  case zero => exact ⟨v, h, .refl⟩
  case succ n hi =>
    simp only [grow] at h
    split at h
    case isTrue => exact ⟨v, h, .refl⟩
    case isFalse =>
      have ⟨u, hu, hr⟩ := hi h
      cases List.mem_append.mp hu
      case inl hu => exact ⟨u, hu, hr⟩
      case inr hu =>
        have ⟨⟨w, hw, hf⟩, _⟩ := mem_next.mp hu
        exact ⟨w, hw, .head hf hr⟩

-- The arcs that still lead to new vertices.
def fresh (arcs : List (κ × κ)) (found : List κ) : List (κ × κ) :=
  arcs.filter (·.2 ∉ found)

theorem fresh_lt {next : List κ} (h : Follows arcs u v) (hv : v ∈ next) (hn : v ∉ found) :
    (fresh arcs (found ++ next)).length < (fresh arcs found).length := by
  have hs : fresh arcs (found ++ next) = (fresh arcs found).filter (·.2 ∉ next) := by
    simp only [fresh, List.filter_filter, List.mem_append]
    congr! 2
    grind
  rw [hs, List.length_filter_lt_length_iff_exists]
  exact ⟨(u, v), List.mem_filter.mpr ⟨h, by simpa using hn⟩, by simpa using hv⟩

-- Every step that finds something uses up an arc, so the search ends before its steps do.
theorem grow_closed (hs : (fresh arcs found).length ≤ steps) (hu : u ∈ grow arcs steps found)
    (h : Follows arcs u v) : v ∈ grow arcs steps found := by
  induction steps generalizing found
  case zero =>
    have hf : fresh arcs found = [] := List.eq_nil_of_length_eq_zero (by omega)
    by_contra hv
    exact List.filter_eq_nil_iff.mp hf (u, v) h (by simpa [grow] using hv)
  case succ n hi =>
    simp only [grow] at hu ⊢
    split at hu
    case isTrue hn =>
      rw [if_pos hn]
      by_contra hv
      exact List.eq_nil_iff_forall_not_mem.mp (List.isEmpty_iff.mp hn) v (mem_next.mpr ⟨⟨u, hu, h⟩, hv⟩)
    case isFalse hn =>
      rw [if_neg hn]
      refine hi ?_ hu
      have ⟨w, hw⟩ := List.exists_mem_of_ne_nil _ (mt List.isEmpty_iff.mpr hn)
      have ⟨⟨x, _, hx⟩, hf⟩ := mem_next.mp hw
      have := fresh_lt hx hw hf
      omega

theorem leads_iff_reaches : leads arcs u v ↔ Reaches arcs u v := by
  simp only [leads, decide_eq_true_eq]
  constructor
  · intro h
    have ⟨w, hw, hr⟩ := exists_reaches_of_mem_grow h
    exact List.mem_singleton.mp hw ▸ hr
  · intro h
    induction h
    case refl => exact subset_grow (List.mem_singleton_self _)
    case tail h hi => exact grow_closed (List.length_filter_le ..) hi h

end Reach

namespace OrientedEdge

variable [DecidableEq κ] {r : Request κ} {rs : List (Request κ)} {o : OrientedEdge κ}
variable {done os : List (OrientedEdge κ)}

-- An edge with its ends put in one of the two orders.
structure Orients (r : Request κ) (o : OrientedEdge κ) : Prop where
  index : o.index = r.index
  kind : o.kind = r.kind
  length : o.length = r.length
  ends : (o.upper = r.source ∧ o.lower = r.target ∧ o.isReversed = false) ∨
    (o.upper = r.target ∧ o.lower = r.source ∧ o.isReversed = true)

theorem add_eq (prefersReversed : Request κ → Bool) (hn : r.source ≠ r.target) (ha : Acyclic (Follows (done.map arc))) :
    ∃ o, add prefersReversed done r = done ++ [o] ∧ Orients r o ∧
      Acyclic (Follows ((done ++ [o]).map arc)) := by
  simp only [add, List.map_append, List.map_cons, List.map_nil, arc]
  refine ⟨_, rfl, ⟨rfl, rfl, rfl, ?ends⟩, ?acyclic⟩
  case ends => split_ifs <;> simp [hn, hn.symm]
  case acyclic =>
    split_ifs with h₁ h₂ h₂ <;> simp only [Reach.leads_iff_reaches] at h₂
    · exact ha.concat (ha.not_reaches hn h₂)
    · exact ha.concat h₂
    · exact ha.concat (ha.not_reaches hn.symm h₂)
    · exact ha.concat h₂

theorem foldl_add_eq (prefersReversed : Request κ → Bool) (hn : ∀ r ∈ rs, r.source ≠ r.target) (ha : Acyclic (Follows (done.map arc))) :
    ∃ os, rs.foldl (add prefersReversed) done = done ++ os ∧ List.Forall₂ Orients rs os ∧
      Acyclic (Follows ((done ++ os).map arc)) := by
  induction rs generalizing done
  case nil => exact ⟨[], by simp, .nil, by simpa using ha⟩
  case cons r rs hi =>
    have ⟨o, ho, hr, ha⟩ := add_eq prefersReversed (hn r (by simp)) ha
    have ⟨os, hos, hrs, ha⟩ := hi (fun r hr => hn r (by simp [hr])) ha
    exact ⟨o :: os, by simp [ho, hos], .cons hr hrs, by simpa using ha⟩

variable [Scalar α] {nodes : List String} {edges : List (SizedEdge α)} {kind : EdgeKind}

theorem mem_requests_iff {r : Request String} : r ∈ requests kind edges ↔
    ∃ e, edges[r.index]? = some e ∧ e.kind = kind ∧ r.kind = kind ∧ e.source ≠ e.target ∧
      r.source = e.source ∧ r.target = e.target ∧ r.length = requiredLength e := by
  obtain ⟨index, kind', source, target, length⟩ := r
  simp only [requests, List.mem_map, List.mem_filter, Prod.exists, List.mk_mem_zipIdx_iff_getElem?,
    SizedEdge.isLoop, Request.mk.injEq]
  grind

theorem ne_of_mem_requests {r : Request String} (h : r ∈ requests kind edges) : r.source ≠ r.target := by
  have ⟨e, _, _, _, hn, hs, ht, _⟩ := mem_requests_iff.mp h
  exact hs ▸ ht ▸ hn

-- Ordering edges come before real ones, and together they close no cycle.
theorem all_eq (nodes : List String) (edges : List (SizedEdge α)) :
    ∃ os₁ os₂, all nodes edges = os₁ ++ os₂ ∧ List.Forall₂ Orients (requests .ordering edges) os₁ ∧
      List.Forall₂ Orients (requests .real edges) os₂ ∧ Acyclic (Follows ((all nodes edges).map arc)) := by
  have h₀ : Acyclic (Follows (([] : List (OrientedEdge String)).map arc)) :=
    fun v hv => by have ⟨_, hv, _⟩ := Relation.TransGen.head'_iff.mp hv; simp [Follows] at hv
  have ⟨os₁, he₁, ho₁, ha₁⟩ := foldl_add_eq (fun _ => false) (fun r (h : r ∈ requests .ordering edges) => ne_of_mem_requests h) h₀
  have ⟨os₂, he₂, ho₂, ha₂⟩ := foldl_add_eq
    (fun r => (feedbackOrder nodes edges).idxOf r.target <
      (feedbackOrder nodes edges).idxOf r.source)
    (fun r (h : r ∈ requests .real edges) => ne_of_mem_requests h) ha₁
  have hall : all nodes edges = os₁ ++ os₂ := by
    rw [all, he₁, List.nil_append]
    simpa using he₂
  exact ⟨os₁, os₂, hall, ho₁, ho₂, by simpa [hall] using ha₂⟩

-- How an oriented edge comes from an edge between different nodes.
structure OrientationOf (e : SizedEdge α) (o : OrientedEdge String) : Prop where
  kind : o.kind = e.kind
  source_ne : e.source ≠ e.target
  length : o.length = requiredLength e
  ends : (o.upper = e.source ∧ o.lower = e.target ∧ o.isReversed = false) ∨
    (o.upper = e.target ∧ o.lower = e.source ∧ o.isReversed = true)

theorem Orients.exists_edge {r : Request String} {o : OrientedEdge String} (h : Orients r o)
    (hr : r ∈ requests kind edges) : ∃ e, edges[o.index]? = some e ∧ OrientationOf e o := by
  have ⟨e, he, hk, hk', hn, hs, ht, hl⟩ := mem_requests_iff.mp hr
  refine ⟨e, h.index ▸ he, ⟨?_, hn, h.length.trans hl, hs ▸ ht ▸ h.ends⟩⟩
  rw [h.kind, hk', hk]

theorem exists_left_of_mem {β γ : Type} {R : β → γ → Prop} {l₁ : List β} {l₂ : List γ} {b : γ}
    (h : List.Forall₂ R l₁ l₂) (hb : b ∈ l₂) : ∃ a ∈ l₁, R a b := by
  induction h
  case nil => simp at hb
  case cons hr _ hi =>
    cases List.mem_cons.mp hb
    case inl hb => exact ⟨_, List.mem_cons_self, hb ▸ hr⟩
    case inr hb =>
      have ⟨a, ha, hr⟩ := hi hb
      exact ⟨a, List.mem_cons_of_mem _ ha, hr⟩

theorem exists_edge_of_mem_all {o : OrientedEdge String} (ho : o ∈ all nodes edges) :
    ∃ e, edges[o.index]? = some e ∧ OrientationOf e o := by
  have ⟨os₁, os₂, hall, ho₁, ho₂, _⟩ := all_eq nodes edges
  rw [hall, List.mem_append] at ho
  cases ho
  case inl ho =>
    have ⟨_, hr, hro⟩ := exists_left_of_mem ho₁ ho
    exact hro.exists_edge hr
  case inr ho =>
    have ⟨_, hr, hro⟩ := exists_left_of_mem ho₂ ho
    exact hro.exists_edge hr

theorem orientationOf_of_mem_all {o : OrientedEdge String} (ho : o ∈ all nodes edges) {e : SizedEdge α}
    (he : edges[o.index]? = some e) : OrientationOf e o := by
  have ⟨e', he', h⟩ := exists_edge_of_mem_all ho
  obtain rfl : e' = e := Option.some.inj (he'.symm.trans he)
  exact h

-- Every edge between different nodes is oriented.
theorem exists_mem_all {e : SizedEdge α} {index : Nat} (he : edges[index]? = some e)
    (hn : e.source ≠ e.target) : ∃ o ∈ all nodes edges, o.index = index := by
  have ⟨os₁, os₂, hall, ho₁, ho₂, _⟩ := all_eq nodes edges
  have hr : (⟨index, e.kind, e.source, e.target, requiredLength e⟩ : Request String) ∈ requests e.kind edges :=
    mem_requests_iff.mpr ⟨e, he, rfl, rfl, hn, rfl, rfl, rfl⟩
  cases hk : e.kind <;> rw [hk] at hr
  case real =>
    have ⟨o, ho, hro⟩ := exists_left_of_mem ho₂.flip hr
    exact ⟨o, by simp [hall, ho], hro.index⟩
  case ordering =>
    have ⟨o, ho, hro⟩ := exists_left_of_mem ho₁.flip hr
    exact ⟨o, by simp [hall, ho], hro.index⟩

-- No edge is oriented twice.
theorem index_nodup_of_real (nodes : List String) (edges : List (SizedEdge α)) :
    (((all nodes edges).filter (·.kind = .real)).map (·.index)).Nodup := by
  have ⟨os₁, os₂, hall, ho₁, ho₂, _⟩ := all_eq nodes edges
  have hk {kind os} (h : List.Forall₂ Orients (requests kind edges) os) : ∀ o ∈ os, o.kind = kind := by
    intro o ho
    have ⟨r, hr, hro⟩ := exists_left_of_mem h ho
    have ⟨_, _, _, hk, _⟩ := mem_requests_iff.mp hr
    exact hro.kind.trans hk
  have hf₁ : os₁.filter (·.kind = .real) = [] := by
    simpa using fun o ho => by simp [hk ho₁ o ho]
  have hf₂ : os₂.filter (·.kind = .real) = os₂ := by
    simpa using hk ho₂
  have hi : os₂.map (·.index) = (requests .real edges).map (·.index) := by
    rw [← List.forall₂_eq_eq_eq, List.forall₂_map_left_iff, List.forall₂_map_right_iff]
    exact ho₂.flip.imp fun _ _ h => h.index
  rw [hall, List.filter_append, hf₁, hf₂, List.nil_append, hi]
  simp only [requests, List.map_map, Function.comp_def]
  refine List.Nodup.sublist (List.Sublist.map _ List.filter_sublist) ?_
  simpa using List.nodup_range' ..

section Kept

variable {S : κ → κ → Prop}

theorem mem_foldl_add (prefersReversed : Request κ → Bool) (rs : List (Request κ)) (ho : o ∈ done) :
    o ∈ rs.foldl (add prefersReversed) done := by
  induction rs generalizing done
  case nil => exact ho
  case cons r rs hi => exact hi (List.mem_append_left _ ho)

omit [DecidableEq κ] in
theorem reaches_of_forall (hd : ∀ o ∈ done, Relation.ReflTransGen S o.upper o.lower)
    (h : Reaches (done.map arc) u v) : Relation.ReflTransGen S u v := by
  induction h
  case refl => exact .refl
  case tail hf hi =>
    obtain ⟨o, ho, hao⟩ := List.mem_map.mp hf
    obtain ⟨rfl, rfl⟩ := Prod.mk.inj hao
    exact hi.trans (hd o ho)

-- An edge is turned round only where its target leads to its source already, so that no vertex comes to lead to
-- another one that the edges as they are given do not lead it to.
theorem forall_add (hd : ∀ o ∈ done, Relation.ReflTransGen S o.upper o.lower) (hr : S r.source r.target) :
    ∀ o ∈ add (fun _ => false) done r, Relation.ReflTransGen S o.upper o.lower := by
  by_cases hl : Reach.leads (done.map arc) r.target r.source
  case pos =>
    simp only [add, hl, Bool.false_eq_true, if_false, if_true, List.forall_mem_append, List.forall_mem_singleton]
    exact ⟨hd, reaches_of_forall hd (Reach.leads_iff_reaches.mp hl)⟩
  case neg =>
    simp only [add, hl, Bool.false_eq_true, if_false, List.forall_mem_append, List.forall_mem_singleton]
    exact ⟨hd, .single hr⟩

-- By induction on the edges: one whose target does not lead to its source keeps its direction.
theorem forwards_mem_foldl_add (hd : ∀ o ∈ done, Relation.ReflTransGen S o.upper o.lower)
    (hs : ∀ r ∈ rs, S r.source r.target) (hr : r ∈ rs) (hn : ¬Relation.ReflTransGen S r.target r.source) :
    ⟨r.index, r.kind, r.source, r.target, r.length, false⟩ ∈ rs.foldl (add fun _ => false) done := by
  induction rs generalizing done
  case nil => cases hr
  case cons t rs hi =>
    obtain ⟨ht, hs⟩ := List.forall_mem_cons.mp hs
    rw [List.foldl_cons]
    cases List.mem_cons.mp hr
    case inl hrt =>
      subst hrt
      have hl : ¬Reach.leads (done.map arc) r.target r.source := fun h =>
        hn (reaches_of_forall hd (Reach.leads_iff_reaches.mp h))
      exact mem_foldl_add _ rs (by simp [add, hl])
    case inr hr => exact hi (forall_add hd ht) hs hr

-- An ordering edge leads from one node to another.
def Orders (edges : List (SizedEdge α)) (u v : String) : Prop :=
  ∃ e ∈ edges, e.kind = .ordering ∧ e.source = u ∧ e.target = v

-- Ordering edges that are on no cycle of ordering edges keep their direction.
theorem exists_forwards (nodes : List String) {e : SizedEdge α} (he : e ∈ edges) (hk : e.kind = .ordering)
    (hn : e.source ≠ e.target) (hc : ¬Relation.ReflTransGen (Orders edges) e.target e.source) :
    ∃ o ∈ all nodes edges, o.upper = e.source ∧ o.lower = e.target ∧ o.length = requiredLength e := by
  obtain ⟨k, hke⟩ := List.getElem?_of_mem he
  have hreq : (⟨k, .ordering, e.source, e.target, requiredLength e⟩ : Request String) ∈ requests .ordering edges :=
    mem_requests_iff.mpr ⟨e, hke, hk, rfl, hn, rfl, rfl, rfl⟩
  have hs : ∀ r ∈ requests .ordering edges, Orders edges r.source r.target := by
    intro r hr
    obtain ⟨e, he, hk, _, _, hs, ht, _⟩ := mem_requests_iff.mp hr
    exact ⟨e, List.mem_of_getElem? he, hk, hs.symm, ht.symm⟩
  have hm := forwards_mem_foldl_add (List.forall_mem_nil _) hs hreq hc
  exact ⟨_, mem_foldl_add _ _ hm, rfl, rfl, rfl⟩

-- Ordering edges along which a measure grows are on no cycle.
theorem exists_forwards_of_ordering {β : Type} [Preorder β] (m : String → β) (nodes : List String)
    (hm : ∀ e ∈ edges, e.kind = .ordering → e.source ≠ e.target → m e.source < m e.target) {e : SizedEdge α}
    (he : e ∈ edges) (hk : e.kind = .ordering) (hn : e.source ≠ e.target) :
    ∃ o ∈ all nodes edges, o.upper = e.source ∧ o.lower = e.target := by
  have hle {v w : String} (h : Relation.ReflTransGen (Orders edges) v w) : m v ≤ m w := by
    induction h
    case refl => exact le_rfl
    case tail ho hi =>
      obtain ⟨t, ht, hkt, rfl, rfl⟩ := ho
      by_cases hne : t.source = t.target
      case pos => exact hne ▸ hi
      case neg => exact hi.trans (hm t ht hkt hne).le
  obtain ⟨o, ho, hu, hl, _⟩ := exists_forwards nodes he hk hn fun h => (hm e he hk hn).not_ge (hle h)
  exact ⟨o, ho, hu, hl⟩

end Kept

theorem eq_of_index_eq {o o' : OrientedEdge String} (ho : o ∈ all nodes edges) (ho' : o' ∈ all nodes edges)
    (hk : o.kind = .real) (hk' : o'.kind = .real) (hi : o.index = o'.index) : o = o' := by
  have hm : o ∈ (all nodes edges).filter (·.kind = .real) := by simpa [ho] using hk
  have hm' : o' ∈ (all nodes edges).filter (·.kind = .real) := by simpa [ho'] using hk'
  exact List.inj_on_of_nodup_map (index_nodup_of_real nodes edges) hm hm' hi

theorem acyclic_all (nodes : List String) (edges : List (SizedEdge α)) :
    Acyclic (Follows ((all nodes edges).map arc)) :=
  have ⟨_, _, _, _, _, ha⟩ := all_eq nodes edges
  ha

end OrientedEdge

end LayeredDiagram
