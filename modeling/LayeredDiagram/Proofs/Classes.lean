import LayeredDiagram.ClassDiagram.Reading
import LayeredDiagram.ClassDiagram.Size
import LayeredDiagram.Proofs.FlatGroups
/-!
What a class diagram text declares. Every line declares the classes that it mentions before anything else is said of
them, so that relationships and namespaces name declared classes only, and no class or namespace is declared twice.
The graph of a class diagram is well formed.
-/

namespace LayeredDiagram.ClassDiagram

open LayeredDiagram.Group

namespace Diagram

variable {d d' : Diagram} {id label name : String} {r : Relationship} {f : Class → Class}

def ids (d : Diagram) : List String :=
  d.classes.map (·.id)

-- Ids and names are unique, and relationships and namespaces name classes only.
structure Consistent (d : Diagram) : Prop where
  ids_nodup : d.ids.Nodup
  names_nodup : (d.namespaces.map (·.name)).Nodup
  ends_mem : ∀ r ∈ d.relationships, r.source ∈ d.ids ∧ r.target ∈ d.ids
  classIds_mem : ∀ n ∈ d.namespaces, ∀ id ∈ n.classIds, id ∈ d.ids

-- More classes do no harm.
theorem Consistent.of_ids (h : d.Consistent) (hn : d'.ids.Nodup) (hs : d.ids ⊆ d'.ids)
    (hr : d'.relationships = d.relationships) (hm : d'.namespaces = d.namespaces) : d'.Consistent where
  ids_nodup := hn
  names_nodup := hm ▸ h.names_nodup
  ends_mem r hmem := (h.ends_mem r (hr ▸ hmem)).imp (hs ·) (hs ·)
  classIds_mem n hmem _ hid := hs (h.classIds_mem n (hm ▸ hmem) _ hid)

theorem class?_isSome_iff : (d.class? id).isSome ↔ id ∈ d.ids := by
  simp [class?, ids]

-- What is said of classes leaves their ids alone.
theorem ids_modify (hf : ∀ c, (f c).id = c.id) : (d.modify id f).ids = d.ids := by
  simp only [modify, ids, List.map_map]
  refine List.map_congr_left fun c _ => ?_
  simp only [Function.comp_apply]
  split
  case isTrue => exact hf c
  case isFalse => rfl

theorem Consistent.modify (h : d.Consistent) (id : String) (hf : ∀ c, (f c).id = c.id) :
    (d.modify id f).Consistent := by
  have hids : (d.modify id f).ids = d.ids := ids_modify hf
  exact h.of_ids (hids ▸ h.ids_nodup) (by rw [hids]; exact List.Subset.refl _) rfl rfl

theorem Consistent.addNamespace (h : d.Consistent) (name : String) : (d.addNamespace name).Consistent := by
  simp only [Diagram.addNamespace]
  split
  case isTrue => exact h
  case isFalse hn =>
    refine ⟨h.ids_nodup, ?_, h.ends_mem, fun n hn => ?_⟩
    · have hname : ∀ n ∈ d.namespaces, n.name ≠ name := by simpa [List.any_eq_true] using hn
      simpa [List.nodup_append] using ⟨h.names_nodup, hname⟩
    · cases List.mem_append.mp hn
      case inl hn => exact h.classIds_mem n hn
      case inr hn =>
        obtain rfl := List.mem_singleton.mp hn
        simp

theorem ids_declare : (d.declare id label).ids = if id ∈ d.ids then d.ids else d.ids ++ [id] := by
  simp only [declare, ← class?_isSome_iff]
  cases d.class? id
  case none => simp [ids]
  case some c =>
    simp only [Option.isSome_some, if_true]
    split
    case isTrue => exact ids_modify fun _ => rfl
    case isFalse => rfl

theorem mem_ids_declare : id ∈ (d.declare id label).ids := by
  rw [ids_declare]
  split
  case isTrue h => exact h
  case isFalse => simp

theorem ids_subset_declare : d.ids ⊆ (d.declare id label).ids := by
  rw [ids_declare]
  split
  case isTrue => exact List.Subset.refl _
  case isFalse => exact List.subset_append_left ..

theorem Consistent.declare (h : d.Consistent) (id label : String) : (d.declare id label).Consistent := by
  refine h.of_ids ?nodup ids_subset_declare ?relationships ?namespaces
  case nodup =>
    rw [ids_declare]
    split
    case isTrue => exact h.ids_nodup
    case isFalse hn => simpa [List.nodup_append] using ⟨h.ids_nodup, fun a ha hid => hn (hid ▸ ha)⟩
  all_goals
    simp only [Diagram.declare]
    split
    case h_1 => rfl
    case h_2 => split <;> rfl

theorem ids_enter : (d.enter id name).ids = d.ids := by
  simp only [enter]
  split
  case h_1 => exact ids_modify fun _ => rfl
  case h_2 => rfl

-- Only a class that is declared enters a namespace.
theorem Consistent.enter (h : d.Consistent) (id name : String) : (d.enter id name).Consistent := by
  simp only [Diagram.enter]
  split
  case h_2 => exact h
  case h_1 hc =>
    have hid : id ∈ d.ids := class?_isSome_iff.mp (by rw [hc]; rfl)
    have hm := h.modify id (f := fun c => { c with namespaceName := some name }) fun _ => rfl
    have hids : (d.modify id fun c => { c with namespaceName := some name }).ids = d.ids := ids_modify fun _ => rfl
    refine ⟨hm.ids_nodup, ?names, hm.ends_mem, fun n hn a ha => ?members⟩
    case names =>
      have hname (n : Namespace) :
          (if n.name = name then { n with classIds := n.classIds ++ [id] } else n).name = n.name := by
        split <;> rfl
      simpa [Diagram.modify, Function.comp_def, hname] using h.names_nodup
    case members =>
      change a ∈ (d.modify id fun c => { c with namespaceName := some name }).ids
      rw [hids]
      obtain ⟨m, hm, rfl⟩ := List.mem_map.mp hn
      split at ha
      case isTrue =>
        rcases List.mem_append.mp ha with ha | ha
        · exact h.classIds_mem m hm a ha
        · exact List.mem_singleton.mp ha ▸ hid
      case isFalse => exact h.classIds_mem m hm a ha

variable {written : List Char} {inside : Option String}

theorem Consistent.ensureClass (h : d.Consistent) (written : List Char) (inside : Option String) :
    (d.ensureClass written inside).1.Consistent := by
  cases inside
  case none => exact h.declare _ _
  case some name => exact (h.declare _ _).enter _ _

theorem ensureClass_mem_ids : (d.ensureClass written inside).2 ∈ (d.ensureClass written inside).1.ids := by
  cases inside
  case none => exact mem_ids_declare
  case some name =>
    simp only [ensureClass, ids_enter]
    exact mem_ids_declare

theorem ids_subset_ensureClass : d.ids ⊆ (d.ensureClass written inside).1.ids := by
  cases inside
  case none => exact ids_subset_declare
  case some name =>
    simp only [ensureClass, ids_enter]
    exact ids_subset_declare

-- A relationship comes after the declaration of both of its ends.
theorem Consistent.relate (h : d.Consistent) (hs : r.source ∈ d.ids) (ht : r.target ∈ d.ids) :
    Consistent { d with relationships := d.relationships ++ [r] } where
  ids_nodup := h.ids_nodup
  names_nodup := h.names_nodup
  ends_mem q hq := by
    rcases List.mem_append.mp hq with hq | hq
    · exact h.ends_mem q hq
    · obtain rfl := List.mem_singleton.mp hq
      exact ⟨hs, ht⟩
  classIds_mem := h.classIds_mem

end Diagram

namespace Draft

open ClassDiagram.Diagram

variable {d : Draft}

theorem id_addMember (c : Class) (m : Member) : (c.addMember m).id = c.id := by
  simp only [Class.addMember]
  split <;> rfl

theorem namespaceName_addMember (c : Class) (m : Member) : (c.addMember m).namespaceName = c.namespaceName := by
  simp only [Class.addMember]
  split <;> rfl

-- A line of a class block says something of its class, but neither its id nor its namespace.
theorem exists_diagram_addToClass (d : Draft) (id : String) (line : List Char) :
    ∃ f : Class → Class, (∀ c, (f c).id = c.id) ∧ (∀ c, (f c).namespaceName = c.namespaceName) ∧
      (d.addToClass id line).diagram = d.diagram.modify id f := by
  simp only [addToClass]
  split
  case isTrue => exact ⟨fun c => c, fun _ => rfl, fun _ => rfl, by simp [Diagram.modify]⟩
  case isFalse =>
    split
    case h_1 text _ =>
      exact ⟨fun c => { c with stereotype := some (String.ofList text) }, fun _ => rfl, fun _ => rfl, rfl⟩
    case h_2 => exact ⟨_, fun c => id_addMember c _, fun c => namespaceName_addMember c _, rfl⟩

theorem consistent_addToClass (h : d.diagram.Consistent) (id : String) (line : List Char) :
    (d.addToClass id line).diagram.Consistent := by
  obtain ⟨f, hid, _, heq⟩ := exists_diagram_addToClass d id line
  exact heq ▸ h.modify id hid

theorem consistent_add (h : d.diagram.Consistent) (s : Statement) : (d.add s).diagram.Consistent := by
  cases s
  case close => exact h
  case openNamespace name => exact h.addNamespace name
  case openClass written => exact h.ensureClass written d.inNamespace
  case declaration written => exact h.ensureClass written d.inNamespace
  case stereotype written text => exact (h.ensureClass written none).modify _ fun _ => rfl
  case relationship source target r =>
    have hboth := (h.ensureClass source none).ensureClass target none
    exact hboth.relate (ids_subset_ensureClass ensureClass_mem_ids) ensureClass_mem_ids
  case member written m => exact (h.ensureClass written none).modify _ fun c => id_addMember c m

theorem consistent_addLine (h : d.diagram.Consistent) (line : Text.Line) : (d.addLine line).diagram.Consistent := by
  simp only [addLine]
  split
  case h_1 id _ => exact consistent_addToClass h id line.content
  case h_2 =>
    split
    case h_1 s _ => exact consistent_add h s
    case h_2 => exact ⟨h.ids_nodup, h.names_nodup, h.ends_mem, h.classIds_mem⟩

end Draft

namespace Diagram

-- By induction on the lines of the text.
theorem consistent_ofText (text : String) : (ofText text).Consistent := by
  have hread (lines : List Text.Line) (draft : Draft) (h : draft.diagram.Consistent) :
      (lines.foldl Draft.addLine draft).diagram.Consistent := by
    induction lines generalizing draft
    case nil => exact h
    case cons line lines hi => exact hi _ (Draft.consistent_addLine h line)
  exact hread _ {} ⟨List.nodup_nil, List.nodup_nil, by simp, by simp⟩

section Graph

variable {α : Type} [Scalar α] {d : Diagram}

theorem map_id_nodes (d : Diagram) (config : Config α) : (d.toGraph config).nodes.map (·.id) = d.ids := by
  simp [toGraph, Class.toNode, ids]

theorem Consistent.wellFormed (h : d.Consistent) (config : Config α) :
    WellFormed (d.toGraph config).nodes (d.toGraph config).edges (forest [] (d.toGraph config).groups) := by
  have hflat : forest [] (d.toGraph config).groups = d.namespaceGroups.map Group.flatEntry := by
    apply Group.forest_of_flat
    intro g hg
    obtain ⟨n, _, rfl⟩ := List.mem_map.mp hg
    rfl
  refine ⟨map_id_nodes d config ▸ h.ids_nodup, fun e he => ?_, ?_, fun g hg m hm => ?_⟩
  case refine_1 =>
    obtain ⟨r, hr, rfl⟩ := List.mem_map.mp he
    exact map_id_nodes d config ▸ h.ends_mem r hr
  case refine_2 =>
    rw [hflat]
    have hids : (d.namespaceGroups.map Group.flatEntry).map (·.id) =
        (d.namespaces.map (·.name)).map fun name => s!"namespace:{name}" := by
      simp [namespaceGroups, Group.flatEntry]
    rw [hids]
    exact h.names_nodup.map fun _ _ hname => (String.append_right_inj _).mp hname
  case refine_3 =>
    rw [hflat] at hg
    obtain ⟨_, hgroup, rfl⟩ := List.mem_map.mp hg
    obtain ⟨n, hn, rfl⟩ := List.mem_map.mp hgroup
    exact map_id_nodes d config ▸ h.classIds_mem n hn m hm

end Graph

end Diagram

end LayeredDiagram.ClassDiagram
