import LayeredDiagram.ArchiMate.Size
import LayeredDiagram.Proofs.FlatGroups
/-!
What is drawn of a layered view. For each id the last declaration counts: it says in which layer the element is, and
no element is in two layers. Ordering edges lead from a layer to the next one, and the graph of a view is well formed.
-/

namespace LayeredDiagram.ArchiMate

open LayeredDiagram.Group

variable {d : Diagram} {ds : List Declaration} {x : Declaration} {id : String} {l u : Layer}

namespace Layer

theorem mem_all (l : Layer) : l ∈ all := by
  cases l <;> decide

-- The id of the group of a layer.
def groupId (l : Layer) : String :=
  s!"layer:{l.name}"

theorem groupId_inj (h : l.groupId = u.groupId) : l = u :=
  List.inj_on_of_nodup_map (by decide : (all.map groupId).Nodup) (mem_all l) (mem_all u) h

theorem name_inj (h : l.name = u.name) : l = u :=
  List.inj_on_of_nodup_map (by decide : (all.map name).Nodup) (mem_all l) (mem_all u) h

-- How far down a layer is.
def index (l : Layer) : Nat :=
  all.idxOf l

theorem pairwise_index_all : all.Pairwise fun l u => l.index < u.index := by
  decide

end Layer

namespace Diagram

-- A declaration lasts if it is the last one of its id.
theorem mem_lasting_iff : x ∈ lasting ds ↔ ds.reverse.find? (·.element.id == x.element.id) = some x := by
  induction ds
  case nil => simp [lasting]
  case cons y ds hi =>
    rw [List.reverse_cons, List.find?_append, Option.or_eq_some_iff, ← hi, lasting]
    by_cases hy : ds.any (·.element.id == y.element.id) = true
    case pos =>
      rw [if_pos hy]
      -- whatever has the id of the first declaration is found before it
      have hnot : ¬(ds.reverse.find? (·.element.id == x.element.id) = none ∧
          [y].find? (·.element.id == x.element.id) = some x) := by
        intro ⟨hnone, hfind⟩
        obtain rfl : x = y := by simpa using List.mem_of_find?_eq_some hfind
        obtain ⟨z, hz, hzy⟩ := List.any_eq_true.mp hy
        have := List.find?_eq_none.mp hnone z (List.mem_reverse.mpr hz)
        exact this hzy
      simp only [hnot, or_false]
    case neg =>
      rw [if_neg hy, List.mem_cons, or_comm]
      apply or_congr_right
      constructor
      · rintro rfl
        refine ⟨List.find?_eq_none.mpr fun z hz hzx => ?_, by simp⟩
        exact hy (List.any_eq_true.mpr ⟨z, List.mem_reverse.mp hz, hzx⟩)
      · intro ⟨_, hfind⟩
        exact (List.mem_singleton.mp (List.mem_of_find?_eq_some hfind))

theorem id_of_declaration? (h : d.declaration? id = some x) : x.element.id = id := by
  simpa using List.find?_some h

theorem mem_of_declaration? (h : d.declaration? id = some x) : x ∈ d.declarations :=
  List.mem_reverse.mp (List.mem_of_find?_eq_some h)

theorem mem_ids_iff : id ∈ d.ids ↔ ∃ x, d.declaration? id = some x := by
  rw [← Option.isSome_iff_exists, declaration?, List.find?_isSome, ids, List.mem_eraseDups]
  simp

-- An element is in the layer of its last declaration.
theorem mem_layerIds_iff : id ∈ d.layerIds l ↔ ∃ x, d.declaration? id = some x ∧ x.layer = l := by
  simp only [layerIds, List.mem_map, List.mem_filter, mem_lasting_iff, decide_eq_true_eq]
  constructor
  · rintro ⟨x, ⟨hx, hl⟩, rfl⟩
    exact ⟨x, hx, hl⟩
  · rintro ⟨x, hx, hl⟩
    have hid := id_of_declaration? hx
    subst hid
    exact ⟨x, ⟨hx, hl⟩, rfl⟩

theorem mem_ids_of_mem_layerIds (h : id ∈ d.layerIds l) : id ∈ d.ids := by
  obtain ⟨x, hx, _⟩ := mem_layerIds_iff.mp h
  exact mem_ids_iff.mpr ⟨x, hx⟩

-- No element is in two layers.
theorem layer_eq (h : id ∈ d.layerIds l) (h' : id ∈ d.layerIds u) : l = u := by
  obtain ⟨x, hx, rfl⟩ := mem_layerIds_iff.mp h
  obtain ⟨y, hy, rfl⟩ := mem_layerIds_iff.mp h'
  rw [Option.some.inj (hx.symm.trans hy)]

theorem mem_presentLayers_of_declaration? (h : d.declaration? id = some x) : x.layer ∈ d.presentLayers := by
  refine List.mem_filter.mpr ⟨Layer.mem_all _, ?_⟩
  exact List.any_eq_true.mpr ⟨x, mem_of_declaration? h, by simp⟩

theorem map_id_elements (d : Diagram) : d.elements.map (·.element.id) = d.ids := by
  rw [elements, List.map_filterMap]
  conv_rhs => rw [← List.filterMap_some (l := d.ids)]
  refine List.filterMap_congr fun id hid => ?_
  obtain ⟨x, hx⟩ := mem_ids_iff.mp hid
  rw [hx, Option.map_some, id_of_declaration? hx]

theorem pairwise_presentLayers (d : Diagram) :
    d.presentLayers.Pairwise fun l u => l.index < u.index :=
  Layer.pairwise_index_all.sublist List.filter_sublist

-- How far down the layer of an element is.
def depth (d : Diagram) (id : String) : Nat :=
  ((d.declaration? id).map fun x => Layer.all.idxOf x.layer).getD 0

theorem depth_eq (h : id ∈ d.layerIds l) : d.depth id = l.index := by
  obtain ⟨x, hx, rfl⟩ := mem_layerIds_iff.mp h
  rw [depth, hx, Option.map_some, Option.getD_some, Layer.index]

section Graph

variable {α : Type} [Scalar α] {c : Config α} {e : SizedEdge α} {weight : α}

theorem mem_orderingEdges_iff : e ∈ d.orderingEdges weight ↔ ∃ upper lower,
    (upper, lower) ∈ d.presentLayers.zip d.presentLayers.tail ∧ ∃ source ∈ d.layerIds upper,
      ∃ target ∈ d.layerIds lower, e = SizedEdge.ordering source target weight := by
  simp only [orderingEdges, List.mem_flatMap, List.mem_map, Prod.exists, eq_comm]

-- None of them is drawn.
theorem filter_real_orderingEdges (weight : α) (d : Diagram) :
    (d.orderingEdges weight).filter (fun e => e.kind = .real) = [] := by
  refine List.filter_eq_nil_iff.mpr fun e he => ?_
  obtain ⟨_, _, _, _, _, _, _, rfl⟩ := mem_orderingEdges_iff.mp he
  simp [SizedEdge.ordering, SizedEdge.plain]

-- Ordering edges lead down.
theorem depth_lt_of_ordering (he : e ∈ (d.toGraph c).edges) (hk : e.kind = .ordering) :
    d.depth e.source < d.depth e.target := by
  cases List.mem_append.mp he
  case inl he =>
    obtain ⟨upper, lower, hul, source, hs, target, ht, rfl⟩ := mem_orderingEdges_iff.mp he
    obtain ⟨l₁, l₂, hp⟩ := mem_zip_tail_iff.mp hul
    have hlt := d.pairwise_presentLayers
    rw [hp] at hlt
    have := (List.pairwise_cons.mp (List.pairwise_append.mp hlt).right.left).left lower List.mem_cons_self
    simpa only [SizedEdge.ordering, SizedEdge.plain, depth_eq hs, depth_eq ht] using this
  case inr he =>
    obtain ⟨r, _, rfl⟩ := List.mem_map.mp he
    cases hk

theorem map_id_nodes (d : Diagram) (c : Config α) : (d.toGraph c).nodes.map (·.id) = d.ids := by
  rw [← map_id_elements]
  simp [toGraph, Element.toNode]

theorem forest_layerGroups (d : Diagram) : forest [] d.layerGroups = d.layerGroups.map Group.flatEntry := by
  apply Group.forest_of_flat
  intro g hg
  obtain ⟨l, _, rfl⟩ := List.mem_map.mp hg
  rfl

theorem wellFormed (d : Diagram) (c : Config α) :
    WellFormed (d.toGraph c).nodes (d.toGraph c).edges (forest [] (d.toGraph c).groups) where
  nodes_nodup := by
    rw [map_id_nodes]
    exact nodup_eraseDups _
  ends_mem e he := by
    rw [map_id_nodes]
    cases List.mem_append.mp he
    case inl he =>
      obtain ⟨upper, lower, _, source, hs, target, ht, rfl⟩ := mem_orderingEdges_iff.mp he
      exact ⟨mem_ids_of_mem_layerIds hs, mem_ids_of_mem_layerIds ht⟩
    case inr he =>
      obtain ⟨r, hr, rfl⟩ := List.mem_map.mp he
      have hknown := (List.mem_filter.mp hr).right
      simp only [isKnown, declares, Bool.and_eq_true, List.any_eq_true] at hknown
      have mem {id : String} (h : ∃ x ∈ d.declarations, (x.element.id == id) = true) : id ∈ d.ids := by
        obtain ⟨x, hx, hid⟩ := h
        exact List.mem_eraseDups.mpr (List.mem_map.mpr ⟨x, hx, by simpa using hid⟩)
      exact ⟨mem hknown.left, mem hknown.right⟩
  groups_nodup := by
    change ((forest [] d.layerGroups).map (·.id)).Nodup
    have hids : (d.layerGroups.map Group.flatEntry).map (·.id) = d.presentLayers.map Layer.groupId := by
      simp [layerGroups, Group.flatEntry, Layer.groupId]
    rw [forest_layerGroups, hids]
    have hsub : d.presentLayers.Sublist Layer.all := List.filter_sublist
    exact (by decide : (Layer.all.map Layer.groupId).Nodup).sublist (hsub.map _)
  members_mem g hg m hm := by
    rw [map_id_nodes]
    change g ∈ forest [] d.layerGroups at hg
    rw [forest_layerGroups] at hg
    obtain ⟨_, hgr, rfl⟩ := List.mem_map.mp hg
    obtain ⟨l, _, rfl⟩ := List.mem_map.mp hgr
    exact mem_ids_of_mem_layerIds hm

end Graph

end Diagram

end LayeredDiagram.ArchiMate
