import LayeredDiagram.Proofs.Classes
/-!
Members of namespaces. A class is listed by the namespace that it names and by no other, once, however often namespaces
are opened again and classes declared again. Both sides are written in one step, when a class without a namespace is
declared inside one.
-/

namespace LayeredDiagram.ClassDiagram

namespace Namespace

variable {n : Namespace} {id name a : String}

-- A namespace after a class has entered the one of a name.
def receive (n : Namespace) (id name : String) : Namespace :=
  if n.name = name then { n with classIds := n.classIds ++ [id] } else n

@[simp]
theorem name_receive : (n.receive id name).name = n.name := by
  rw [receive]
  split <;> rfl

theorem mem_receive : a ∈ (n.receive id name).classIds ↔ a ∈ n.classIds ∨ a = id ∧ n.name = name := by
  rw [receive]
  split
  case isTrue h => simp [h]
  case isFalse h => simp [h]

theorem nodup_receive (h : n.classIds.Nodup) (hid : id ∉ n.classIds) : (n.receive id name).classIds.Nodup := by
  rw [receive]
  split
  case isTrue =>
    rw [← List.concat_eq_append]
    exact h.concat hid
  case isFalse => exact h

end Namespace

namespace Diagram

variable {d d' : Diagram} {id label name : String} {f : Class → Class} {c : Class}

section Lookup

theorem id_of_class? (h : d.class? id = some c) : c.id = id := by
  simpa using List.find?_some h

theorem mem_of_class? (h : d.class? id = some c) : c ∈ d.classes :=
  List.mem_of_find?_eq_some h

theorem class?_of_mem (h : d.ids.Nodup) (hc : c ∈ d.classes) : d.class? c.id = some c := by
  obtain ⟨b, hb⟩ := Option.isSome_iff_exists.mp (class?_isSome_iff.mpr (List.mem_map_of_mem hc))
  rw [hb, List.inj_on_of_nodup_map h (mem_of_class? hb) hc (id_of_class? hb)]

theorem class?_modify (hf : ∀ c, (f c).id = c.id) (a : String) :
    (d.modify id f).class? a = (d.class? a).map fun c => if c.id == id then f c else c := by
  have hid : ((·.id == a) ∘ fun c : Class => if c.id == id then f c else c) = (·.id == a) := by
    funext c
    simp only [Function.comp_apply]
    split
    case isTrue => rw [hf]
    case isFalse => rfl
  rw [class?, modify, List.find?_map, hid]
  rfl

end Lookup

-- The namespace that the class of an id names.
def namespaceOf? (d : Diagram) (id : String) : Option String :=
  (d.class? id).bind (·.namespaceName)

section NamespaceOf

theorem namespaceOf?_modify (hf : ∀ c, (f c).id = c.id) (a : String) : (d.modify id f).namespaceOf? a =
    if a = id then (d.class? id).bind fun c => (f c).namespaceName else d.namespaceOf? a := by
  rw [namespaceOf?, class?_modify hf, namespaceOf?]
  by_cases ha : a = id
  case pos =>
    subst ha
    rw [if_pos rfl]
    cases hc : d.class? a
    case none => rfl
    case some c => simp [id_of_class? hc]
  case neg =>
    rw [if_neg ha]
    cases hc : d.class? a
    case none => rfl
    case some c => simp [id_of_class? hc, ha]

theorem namespaceOf?_modify_eq (hf : ∀ c, (f c).id = c.id) (hn : ∀ c, (f c).namespaceName = c.namespaceName)
    (a : String) : (d.modify id f).namespaceOf? a = d.namespaceOf? a := by
  rw [namespaceOf?_modify hf]
  split
  case isTrue ha => simp [ha, hn, namespaceOf?]
  case isFalse => rfl

-- A new class is in no namespace.
theorem namespaceOf?_declare (a : String) : (d.declare id label).namespaceOf? a = d.namespaceOf? a := by
  simp only [declare]
  split
  case h_1 h =>
    by_cases ha : id = a
    case pos =>
      subst ha
      have hnew : ({ d with classes := d.classes ++ [{ id, label }] } : Diagram).class? id = some { id, label } := by
        rw [class?, List.find?_append, show d.classes.find? _ = none from h]
        simp
      rw [namespaceOf?, hnew, namespaceOf?, h]
      rfl
    case neg =>
      have hold : ({ d with classes := d.classes ++ [{ id, label }] } : Diagram).class? a = d.class? a := by
        rw [class?, List.find?_append, List.find?_singleton, if_neg (by simpa using ha), Option.or_none, class?]
      rw [namespaceOf?, hold, namespaceOf?]
  case h_2 =>
    split
    case isTrue => exact namespaceOf?_modify_eq (f := fun c => { c with label }) (fun _ => rfl) (fun _ => rfl) a
    case isFalse => rfl

end NamespaceOf

-- The lists of the namespaces agree with what the classes say.
structure Grouped (d : Diagram) : Prop where
  mem_iff : ∀ n ∈ d.namespaces, ∀ id, id ∈ n.classIds ↔ d.namespaceOf? id = some n.name
  nodup : ∀ n ∈ d.namespaces, n.classIds.Nodup
  name_mem : ∀ id name, d.namespaceOf? id = some name → name ∈ d.namespaces.map (·.name)

namespace Grouped

theorem congr (h : d.Grouped) (hof : d'.namespaceOf? = d.namespaceOf?) (hn : d'.namespaces = d.namespaces) :
    d'.Grouped where
  mem_iff := by
    rw [hn, hof]
    exact h.mem_iff
  nodup := hn ▸ h.nodup
  name_mem := by
    rw [hn, hof]
    exact h.name_mem

theorem modify (h : d.Grouped) (id : String) (hf : ∀ c, (f c).id = c.id)
    (hn : ∀ c, (f c).namespaceName = c.namespaceName) : (d.modify id f).Grouped :=
  h.congr (funext (namespaceOf?_modify_eq hf hn)) rfl

-- No class names a namespace that has not been opened.
theorem addNamespace (h : d.Grouped) (name : String) : (d.addNamespace name).Grouped := by
  simp only [Diagram.addNamespace]
  split
  case isTrue => exact h
  case isFalse hnew =>
    have hnone : name ∉ d.namespaces.map (·.name) := by simpa using hnew
    refine ⟨fun n hn id => ?mem_iff, fun n hn => ?nodup, fun id other hid => ?name_mem⟩
    case mem_iff =>
      rcases List.mem_append.mp hn with hn | hn
      · exact h.mem_iff n hn id
      · obtain rfl := List.mem_singleton.mp hn
        exact ⟨fun hid => absurd hid List.not_mem_nil, fun hid => absurd (h.name_mem id name hid) hnone⟩
    case nodup =>
      rcases List.mem_append.mp hn with hn | hn
      · exact h.nodup n hn
      · obtain rfl := List.mem_singleton.mp hn
        exact List.nodup_nil
    case name_mem =>
      rw [List.map_append]
      exact List.mem_append_left _ (h.name_mem id other hid)

end Grouped

theorem namespaces_declare : (d.declare id label).namespaces = d.namespaces := by
  simp only [declare]
  split
  case h_1 => rfl
  case h_2 => split <;> rfl

theorem Grouped.declare (h : d.Grouped) (id label : String) : (d.declare id label).Grouped :=
  h.congr (funext namespaceOf?_declare) namespaces_declare

-- What entering a namespace does: nothing, or it writes both sides of the membership of a class that is in none.
theorem enter_cases (d : Diagram) (id name : String) : d.enter id name = d ∨
    d.namespaceOf? id = none ∧
      (d.enter id name).namespaces = d.namespaces.map (·.receive id name) ∧
      ∀ a, (d.enter id name).namespaceOf? a = if a = id then some name else d.namespaceOf? a := by
  rw [enter]
  split
  case h_2 => exact .inl rfl
  case h_1 hc =>
    refine .inr ⟨by rw [namespaceOf?, hc]; rfl, ?namespaces, fun a => ?namespaceOf⟩
    case namespaces => simp only [Namespace.receive, beq_iff_eq, Diagram.modify]
    case namespaceOf =>
      have hmodify := @namespaceOf?_modify d id (fun c => { c with namespaceName := some name }) (fun _ => rfl) a
      rw [hc] at hmodify
      exact hmodify

theorem names_enter : (d.enter id name).namespaces.map (·.name) = d.namespaces.map (·.name) := by
  rcases enter_cases d id name with h | ⟨_, h, _⟩
  · rw [h]
  · simp [h, Function.comp_def]

-- Only a namespace that has been opened is entered.
theorem Grouped.enter (h : d.Grouped) (id : String) (hname : name ∈ d.namespaces.map (·.name)) :
    (d.enter id name).Grouped := by
  rcases enter_cases d id name with heq | ⟨hnone, hnamespaces, hof⟩
  · rw [heq]
    exact h
  refine ⟨fun m hm a => ?mem_iff, fun m hm => ?nodup, fun a other ha => ?name_mem⟩
  case mem_iff =>
    rw [hnamespaces] at hm
    obtain ⟨n, hn, rfl⟩ := List.mem_map.mp hm
    rw [Namespace.mem_receive, Namespace.name_receive, h.mem_iff n hn a, hof]
    split
    case isTrue ha => simp [ha, hnone, eq_comm]
    case isFalse ha => simp [ha]
  case nodup =>
    rw [hnamespaces] at hm
    obtain ⟨n, hn, rfl⟩ := List.mem_map.mp hm
    refine Namespace.nodup_receive (h.nodup n hn) fun hid => ?_
    rw [h.mem_iff n hn, hnone] at hid
    cases hid
  case name_mem =>
    rw [hof] at ha
    rw [names_enter]
    split at ha
    case isTrue => exact Option.some.inj ha ▸ hname
    case isFalse => exact h.name_mem a other ha

theorem names_ensureClass {written : List Char} {inside : Option String} :
    (d.ensureClass written inside).1.namespaces.map (·.name) = d.namespaces.map (·.name) := by
  cases inside
  case none => exact congrArg _ namespaces_declare
  case some name => exact names_enter.trans (congrArg _ namespaces_declare)

theorem Grouped.ensureClass (h : d.Grouped) (written : List Char) {inside : Option String}
    (hinside : ∀ name ∈ inside, name ∈ d.namespaces.map (·.name)) : (d.ensureClass written inside).1.Grouped := by
  cases inside
  case none => exact h.declare _ _
  case some name =>
    refine (h.declare _ _).enter _ ?_
    rw [namespaces_declare]
    exact hinside name rfl

end Diagram

namespace Draft

variable {d : Draft}

-- The namespace that is open is one of the diagram.
structure Grouped (d : Draft) : Prop where
  diagram : d.diagram.Grouped
  inNamespace_mem : ∀ name ∈ d.inNamespace, name ∈ d.diagram.namespaces.map (·.name)

theorem mem_names_addNamespace (diagram : Diagram) (name : String) :
    name ∈ (diagram.addNamespace name).namespaces.map (·.name) := by
  simp only [Diagram.addNamespace]
  split
  case isTrue h => simpa using h
  case isFalse => simp

theorem inNamespace_addToClass (d : Draft) (id : String) (line : List Char) :
    (d.addToClass id line).inNamespace = d.inNamespace := by
  simp only [Draft.addToClass]
  split
  case isTrue => rfl
  case isFalse => split <;> rfl

theorem Grouped.addToClass (h : d.Grouped) (id : String) (line : List Char) : (d.addToClass id line).Grouped := by
  obtain ⟨f, hid, hname, heq⟩ := exists_diagram_addToClass d id line
  refine ⟨heq ▸ h.diagram.modify id hid hname, ?_⟩
  rw [inNamespace_addToClass, heq]
  exact h.inNamespace_mem

theorem Grouped.add (h : d.Grouped) (s : Statement) : (d.add s).Grouped := by
  have named {written : List Char} {inside : Option String} : ∀ name ∈ d.inNamespace,
      name ∈ (d.diagram.ensureClass written inside).1.namespaces.map (·.name) := by
    rw [Diagram.names_ensureClass]
    exact h.inNamespace_mem
  have outside : ∀ name ∈ (none : Option String), name ∈ d.diagram.namespaces.map (·.name) := nofun
  cases s
  case close => exact ⟨h.diagram, nofun⟩
  case openNamespace name =>
    refine ⟨h.diagram.addNamespace name, fun other hother => ?_⟩
    obtain rfl : name = other := Option.some.inj hother
    exact mem_names_addNamespace d.diagram name
  case openClass written => exact ⟨h.diagram.ensureClass written h.inNamespace_mem, named⟩
  case declaration written => exact ⟨h.diagram.ensureClass written h.inNamespace_mem, named⟩
  case stereotype written text =>
    exact ⟨(h.diagram.ensureClass written outside).modify _ (f := fun c => { c with stereotype := some text })
      (fun _ => rfl) (fun _ => rfl), @named written none⟩
  case relationship source target r =>
    have hsource := h.diagram.ensureClass source outside
    have hboth : ((d.diagram.ensureClass source none).1.ensureClass target none).1.Grouped :=
      hsource.ensureClass target nofun
    refine ⟨hboth.congr rfl rfl, ?_⟩
    change ∀ name ∈ d.inNamespace, name ∈
      ((d.diagram.ensureClass source none).1.ensureClass target none).1.namespaces.map (·.name)
    rw [Diagram.names_ensureClass]
    exact named
  case member written m =>
    exact ⟨(h.diagram.ensureClass written outside).modify _ (fun c => id_addMember c m)
      (fun c => namespaceName_addMember c m), @named written none⟩

theorem Grouped.addLine (h : d.Grouped) (line : Text.Line) : (d.addLine line).Grouped := by
  simp only [Draft.addLine]
  split
  case h_1 id _ => exact h.addToClass id line.content
  case h_2 =>
    split
    case h_1 s _ => exact h.add s
    case h_2 => exact ⟨h.diagram.congr rfl rfl, h.inNamespace_mem⟩

-- By induction on the lines.
theorem Grouped.foldl (h : d.Grouped) (lines : List Text.Line) : (lines.foldl Draft.addLine d).Grouped := by
  induction lines generalizing d
  case nil => exact h
  case cons line lines hi => exact hi (h.addLine line)

end Draft

namespace Diagram

theorem grouped_ofText (text : String) : (ofText text).Grouped := by
  have hstart : Draft.Grouped {} := by
    refine ⟨⟨?_, ?_, ?_⟩, ?_⟩ <;> simp [namespaceOf?, class?]
  exact (hstart.foldl (Text.bodyLines text)).diagram

-- A diagram whose parts agree: classes are found under their own ids, relationships are between classes, and each
-- class is listed once by the namespace that it names and by no other.
structure Coherent (d : Diagram) : Prop where
  class?_eq : ∀ c ∈ d.classes, d.class? c.id = some c
  ends_declared : ∀ r ∈ d.relationships, (d.class? r.source).isSome ∧ (d.class? r.target).isSome
  names_nodup : (d.namespaces.map (·.name)).Nodup
  mem_classIds_iff : ∀ n ∈ d.namespaces, ∀ id,
    id ∈ n.classIds ↔ ∃ c, d.class? id = some c ∧ c.namespaceName = some n.name
  classIds_nodup : ∀ n ∈ d.namespaces, n.classIds.Nodup
  name_mem : ∀ c ∈ d.classes, ∀ name, c.namespaceName = some name → ∃ n ∈ d.namespaces, n.name = name
  eq_of_mem : ∀ n ∈ d.namespaces, ∀ m ∈ d.namespaces, ∀ id, id ∈ n.classIds → id ∈ m.classIds → n = m

-- Whatever the lines of a text are.
theorem ofText_coherent (text : String) : (ofText text).Coherent := by
  have hd := consistent_ofText text
  have hg := grouped_ofText text
  have declared {id : String} (h : id ∈ (ofText text).ids) : ((ofText text).class? id).isSome := class?_isSome_iff.mpr h
  constructor
  case class?_eq => exact fun c hc => class?_of_mem hd.ids_nodup hc
  case ends_declared => exact fun r hr => (hd.ends_mem r hr).imp declared declared
  case names_nodup => exact hd.names_nodup
  case mem_classIds_iff =>
    intro n hn id
    rw [hg.mem_iff n hn id, namespaceOf?, Option.bind_eq_some_iff]
  case classIds_nodup => exact hg.nodup
  case name_mem =>
    intro c hc name hname
    have hof : (ofText text).namespaceOf? c.id = some name := by
      rw [namespaceOf?, class?_of_mem hd.ids_nodup hc]
      exact hname
    exact List.mem_map.mp (hg.name_mem c.id name hof)
  case eq_of_mem =>
    intro n hn m hm id hidn hidm
    rw [hg.mem_iff n hn] at hidn
    rw [hg.mem_iff m hm] at hidm
    exact List.inj_on_of_nodup_map hd.names_nodup hn hm (Option.some.inj (hidn.symm.trans hidm))

-- A namespace that is opened again, and a class that stays in its first one.
example : (ofText "classDiagram
  namespace Shop {
    class Order
  }
  namespace Stock {
    class Order
    class Item
  }
  namespace Shop {
    class Bill
  }").namespaces = [⟨"Shop", ["Order", "Bill"]⟩, ⟨"Stock", ["Item"]⟩] := by
  decide +kernel

end Diagram

end LayeredDiagram.ClassDiagram
