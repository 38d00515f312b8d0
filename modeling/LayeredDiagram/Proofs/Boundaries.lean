import LayeredDiagram.C4.Reading
import LayeredDiagram.C4.Size
import LayeredDiagram.Proofs.WellFormed
/-!
What a C4 text can declare. However its lines open and close boundaries, the elements of every boundary are elements
of the diagram, of which the first of each id are drawn, and relationships to anything else are left out. So nothing
but boundaries with the same id can keep the graph of a C4 diagram from being well formed.
-/

namespace LayeredDiagram.C4

open LayeredDiagram.Group

variable {es : List Element} {b c : Boundary} {bs cs : List Boundary} {seen : List String} {id : String}

namespace Boundary

theorem walk_eq (b : Boundary) : walk b = b :: walkAll b.children := by
  cases b
  rfl

theorem walkAll_append : walkAll (bs ++ cs) = walkAll bs ++ walkAll cs := by
  induction bs
  case nil => rfl
  case cons b bs hi => simp only [List.cons_append, walkAll, hi, List.append_assoc]

-- The groups of boundaries list the boundaries in the same order, with the same members.
mutual

theorem entries_toGroup : (b : Boundary) → (above : List String) →
    (entries above b.toGroup).map (fun e => (e.id, e.members)) = (walk b).map fun b => (b.id, b.elements.map (·.id))
  | ⟨id, label, kind, elements, children, parent⟩, above => by
    simp only [toGroup, entries, walk, List.map_cons, forest_toGroups children]

theorem forest_toGroups : (bs : List Boundary) → (above : List String) →
    (forest above (toGroups bs)).map (fun e => (e.id, e.members)) =
      (walkAll bs).map fun b => (b.id, b.elements.map (·.id))
  | [], above => by simp [toGroups, forest, walkAll]
  | b :: bs, above => by
    simp only [toGroups, forest, walkAll, List.map_append, entries_toGroup b, forest_toGroups bs]

end

-- Boundaries at any depth list elements from a list only.
def Within (es : List Element) (bs : List Boundary) : Prop :=
  ∀ b ∈ walkAll bs, b.elements ⊆ es

theorem within_nil : Within es [] := by
  simp [Within, walkAll]

theorem within_cons : Within es (b :: bs) ↔ b.elements ⊆ es ∧ Within es b.children ∧ Within es bs := by
  simp only [Within, walkAll, walk_eq, List.cons_append, List.forall_mem_cons, List.forall_mem_append]

theorem within_append : Within es (bs ++ cs) ↔ Within es bs ∧ Within es cs := by
  simp only [Within, walkAll_append, List.forall_mem_append]

theorem Within.mono {es' : List Element} (h : Within es bs) (hs : es ⊆ es') : Within es' bs :=
  fun b hb _ he => hs (h b hb he)

end Boundary

namespace Draft

open Boundary

variable {d : Draft}

-- The boundaries read so far, whether closed or open, list elements of the diagram only.
def Consistent (d : Draft) : Prop :=
  Within d.diagram.elements (d.diagram.boundaries ++ d.opened)

theorem Consistent.close (h : d.Consistent) : d.close.Consistent := by
  obtain ⟨diagram, opened⟩ := d
  match opened with
  | [] => exact h
  | [b] => simpa [Consistent, Draft.close] using h
  | b :: p :: outer =>
    simp only [Consistent, Draft.close, within_append, within_cons, within_nil, and_true] at h ⊢
    tauto

theorem Consistent.addElement (h : d.Consistent) (e : Element) : (d.addElement e).Consistent := by
  have hs : d.diagram.elements ⊆ d.diagram.elements ++ [{ e with parent := d.parent? }] :=
    List.subset_append_left ..
  obtain ⟨diagram, opened⟩ := d
  cases opened
  case nil => exact h.mono hs
  case cons b outer =>
    obtain ⟨hclosed, hopen⟩ := within_append.mp h
    obtain ⟨hb, hinside, houter⟩ := within_cons.mp hopen
    refine within_append.mpr ⟨hclosed.mono hs, within_cons.mpr ⟨?_, hinside.mono hs, houter.mono hs⟩⟩
    exact List.append_subset.mpr ⟨List.Subset.trans hb hs, List.subset_append_right ..⟩

theorem Consistent.add (h : d.Consistent) (s : Statement) : (d.add s).Consistent := by
  cases s
  case title => exact h
  case boundary kind id label =>
    obtain ⟨hclosed, hopen⟩ := within_append.mp h
    exact within_append.mpr ⟨hclosed, within_cons.mpr ⟨List.nil_subset _, within_nil, hopen⟩⟩
  case close => exact h.close
  case element e => exact h.addElement e
  case relationship => exact h

theorem Consistent.within_finish (h : d.Consistent) : Within d.finish.elements d.finish.boundaries := by
  have hclosed (bs : List Boundary) (d : Draft) (h : d.Consistent) : (bs.foldl (fun d _ => d.close) d).Consistent := by
    induction bs generalizing d
    case nil => exact h
    case cons b bs hi => exact hi _ h.close
  exact (within_append.mp (hclosed d.opened d h)).left

theorem elements_close (d : Draft) : d.close.diagram.elements = d.diagram.elements := by
  unfold close
  split <;> rfl

theorem relationships_close (d : Draft) : d.close.diagram.relationships = d.diagram.relationships := by
  unfold close
  split <;> rfl

-- The end of a text only closes boundaries.
theorem finish_lists (d : Draft) :
    d.finish.elements = d.diagram.elements ∧ d.finish.relationships = d.diagram.relationships := by
  have hclosed (bs : List Boundary) (d : Draft) :
      (bs.foldl (fun d _ => d.close) d).diagram.elements = d.diagram.elements ∧
      (bs.foldl (fun d _ => d.close) d).diagram.relationships = d.diagram.relationships := by
    induction bs generalizing d
    case nil => exact ⟨rfl, rfl⟩
    case cons b bs hi => exact ⟨(hi _).left.trans (elements_close d), (hi _).right.trans (relationships_close d)⟩
  exact hclosed d.opened d

end Draft

namespace Diagram

open Boundary

variable {d : Diagram}

-- By induction on the statements of the text.
theorem within_ofStatements (kind : String) (statements : List Statement) :
    Within (ofStatements kind statements).elements (ofStatements kind statements).boundaries := by
  have hread (statements : List Statement) (draft : Draft) (h : draft.Consistent) :
      (statements.foldl Draft.add draft).Consistent := by
    induction statements generalizing draft
    case nil => exact h
    case cons s statements hi => exact hi _ (h.add s)
  have hnew : Draft.Consistent { diagram := { kind } } := within_nil
  exact (hread _ _ hnew).within_finish

theorem mem_map_id_go : id ∈ (uniqueElements.go seen es).map (·.id) ↔ id ∈ es.map (·.id) ∧ id ∉ seen := by
  induction es generalizing seen
  case nil => simp [uniqueElements.go]
  case cons e es hi =>
    simp only [uniqueElements.go, List.contains_iff_mem]
    split
    case isTrue h =>
      rw [hi]
      grind
    case isFalse h =>
      simp only [List.map_cons, List.mem_cons, hi]
      grind

theorem nodup_map_id_go : ((uniqueElements.go seen es).map (·.id)).Nodup := by
  induction es generalizing seen
  case nil => simp [uniqueElements.go]
  case cons e es hi =>
    rw [uniqueElements.go]
    split
    case isTrue => exact hi
    case isFalse =>
      refine List.nodup_cons.mpr ⟨fun hm => ?_, hi⟩
      exact (mem_map_id_go.mp hm).right List.mem_cons_self

theorem mem_map_id_uniqueElements : id ∈ d.uniqueElements.map (·.id) ↔ id ∈ d.elements.map (·.id) := by
  simp [uniqueElements, mem_map_id_go]

end Diagram

section Graph

variable {α : Type} [Scalar α] {config : Config α} {e : SizedEdge α} {r : Relationship} {width height : α}
variable {d : Diagram}

theorem Relationship.eq_of_mem_edges (he : e ∈ r.edges width height) : e = r.edge width height ∨
    e = SizedEdge.ordering r.source r.target 1 ∨ e = SizedEdge.ordering r.target r.source 1 := by
  rcases List.mem_cons.mp he with rfl | he
  · exact .inl rfl
  · simp only [orderingEdge?] at he
    split at he <;> simp only [Option.toList, List.mem_cons, List.not_mem_nil, or_false] at he <;> simp [he]

theorem Relationship.ends_of_mem_edges (he : e ∈ r.edges width height) :
    (e.source = r.source ∧ e.target = r.target) ∨ (e.source = r.target ∧ e.target = r.source) := by
  rcases eq_of_mem_edges he with rfl | rfl | rfl
  · exact .inl ⟨rfl, rfl⟩
  · exact .inl ⟨rfl, rfl⟩
  · exact .inr ⟨rfl, rfl⟩

-- Only one edge of a relationship is drawn.
theorem Relationship.filter_real_edges (r : Relationship) (width height : α) :
    (r.edges width height).filter (fun e => e.kind = .real) = [r.edge width height] := by
  rw [edges, orderingEdge?]
  split <;> rfl

namespace Diagram

open Boundary

theorem map_id_nodes (d : Diagram) (config : Config α) :
    (d.toGraph config).nodes.map (·.id) = d.uniqueElements.map (·.id) := by
  simp [toGraph, Element.toNode]

theorem nodes_nodup (d : Diagram) (config : Config α) : ((d.toGraph config).nodes.map (·.id)).Nodup := by
  rw [map_id_nodes]
  exact nodup_map_id_go

theorem ends_mem (he : e ∈ (d.toGraph config).edges) :
    e.source ∈ (d.toGraph config).nodes.map (·.id) ∧ e.target ∈ (d.toGraph config).nodes.map (·.id) := by
  obtain ⟨r, hr, he⟩ := List.mem_flatMap.mp he
  have hknown := (List.mem_filter.mp hr).right
  simp only [isKnown, declares, Bool.and_eq_true, List.any_eq_true, beq_iff_eq, ← List.mem_map,
    ← mem_map_id_uniqueElements] at hknown
  rw [map_id_nodes]
  rcases Relationship.ends_of_mem_edges he with ⟨hs, ht⟩ | ⟨hs, ht⟩ <;> rw [hs, ht]
  · exact hknown
  · exact hknown.symm

theorem map_id_groups (d : Diagram) (config : Config α) :
    (forest [] (d.toGraph config).groups).map (·.id) = (walkAll d.boundaries).map (·.id) := by
  simpa [Function.comp_def, toGraph, groups] using congrArg (List.map Prod.fst) (forest_toGroups d.boundaries [])

theorem members_mem (h : Within d.elements d.boundaries) {g : Entry} (hg : g ∈ forest [] (d.toGraph config).groups)
    {m : String} (hm : m ∈ g.members) : m ∈ (d.toGraph config).nodes.map (·.id) := by
  rw [map_id_nodes, mem_map_id_uniqueElements]
  have hmem : (g.id, g.members) ∈ (walkAll d.boundaries).map fun b => (b.id, b.elements.map (·.id)) :=
    forest_toGroups d.boundaries [] ▸ List.mem_map_of_mem hg
  obtain ⟨b, hb, he⟩ := List.mem_map.mp hmem
  rw [← (Prod.mk.inj he).right] at hm
  exact List.map_subset _ (h b hb) hm

-- Only boundaries that share an id keep the graph from being well formed.
theorem wellFormed (h : Within d.elements d.boundaries) (hn : ((walkAll d.boundaries).map (·.id)).Nodup)
    (config : Config α) :
    WellFormed (d.toGraph config).nodes (d.toGraph config).edges (forest [] (d.toGraph config).groups) where
  nodes_nodup := nodes_nodup d config
  ends_mem _ := ends_mem
  groups_nodup := map_id_groups d config ▸ hn
  members_mem _ hg _ := members_mem h hg

end Diagram

end Graph

end LayeredDiagram.C4
