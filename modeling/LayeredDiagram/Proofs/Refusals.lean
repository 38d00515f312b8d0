import LayeredDiagram.Family.Diagram
import LayeredDiagram.Proofs.Boundaries
import LayeredDiagram.Proofs.Classes
import LayeredDiagram.Proofs.Layers
/-!
Which texts have no layout. Reading and sizing leave out or declare whatever would keep a graph from being well
formed, with one exception: boundaries of a C4 diagram that share an id. Even that goes unnoticed if there is nothing
to lay out.
-/

namespace LayeredDiagram

open LayeredDiagram.Group

variable {α : Type} [Scalar α]

namespace C4.Diagram

open Boundary

variable {d : Diagram}

theorem nodes_eq_nil_iff {config : Config α} : (d.toGraph config).nodes = [] ↔ d.elements = [] := by
  simp only [toGraph, List.map_eq_nil_iff, uniqueElements]
  cases d.elements <;> simp [uniqueElements.go]

-- The layout is refused for an id that boundaries share.
theorem layout_of_not_nodup (h : Within d.elements d.boundaries) (he : d.elements ≠ [])
    (hr : ¬((walkAll d.boundaries).map (·.id)).Nodup) (config : Config α) (sweeps : Nat) :
    ∃ id, ((walkAll d.boundaries).map (·.id)).Duplicate id ∧
      (d.toGraph config).layout sweeps = .error (.duplicateGroup id) := by
  have hn : (d.toGraph config).nodes ≠ [] := nodes_eq_nil_iff.not.mpr he
  have hsome : Register.error? (d.toGraph config).nodes (d.toGraph config).edges
      (forest [] (d.toGraph config).groups) ≠ none := fun hnone =>
    hr (map_id_groups d config ▸ (Register.error?_eq_none_iff.mp hnone).groups_nodup)
  obtain ⟨e, hsome⟩ := Option.ne_none_iff_exists'.mp hsome
  have hgroups := (Register.error?_eq_groupError? (nodes_nodup d config) fun _ => ends_mem).symm.trans hsome
  obtain ⟨id, rfl, hid⟩ := Register.exists_repeated_of_groupError? (fun _ hg _ => members_mem h hg) hgroups
  rw [map_id_groups] at hid
  exact ⟨id, hid.resolve_left (by simp), SizedGraph.layout_of_error? rfl hn hsome sweeps⟩

end C4.Diagram

namespace Diagram

-- A C4 diagram with elements in which two boundaries, at any depth, have the same id.
def RepeatsBoundary (d : Diagram) : Prop :=
  ∃ c, d = .c4 c ∧ c.elements ≠ [] ∧ ¬((C4.Boundary.walkAll c.boundaries).map (·.id)).Nodup

theorem wellFormed_of_text {text : String} {f : Family} (config : Config α)
    (hr : ¬(ofTextIn f text).RepeatsBoundary) (hn : ((ofTextIn f text).toGraph config).nodes ≠ []) :
    WellFormed ((ofTextIn f text).toGraph config).nodes ((ofTextIn f text).toGraph config).edges
      (forest [] ((ofTextIn f text).toGraph config).groups) := by
  cases f
  case c4 =>
    refine C4.Diagram.wellFormed (C4.Diagram.within_ofStatements _ _) ?_ config.c4
    by_contra hdup
    exact hr ⟨_, rfl, C4.Diagram.nodes_eq_nil_iff.not.mp hn, hdup⟩
  case archimate => exact (ArchiMate.Diagram.ofText text).wellFormed _
  case classDiagram => exact (ClassDiagram.Diagram.consistent_ofText text).wellFormed _

theorem direction_toGraph (d : Diagram) (config : Config α) : (d.toGraph config).direction = "TB" := by
  cases d <;> rfl

theorem exists_layout_of_text {text : String} {f : Family} (config : Config α) (sweeps : Nat)
    (hr : ¬(ofTextIn f text).RepeatsBoundary) : ∃ p, (ofTextIn f text).layout config sweeps = .ok p :=
  SizedGraph.exists_layout_of_nodes (direction_toGraph ..) (wellFormed_of_text config hr) sweeps

theorem layout_of_repeatsBoundary {text : String} {f : Family} (config : Config α) (sweeps : Nat)
    (hr : (ofTextIn f text).RepeatsBoundary) :
    ∃ id, (ofTextIn f text).layout config sweeps = .error (.duplicateGroup id) := by
  obtain ⟨c, hc, he, hn⟩ := hr
  cases f
  case c4 =>
    obtain rfl := Diagram.c4.inj hc
    obtain ⟨id, _, hid⟩ := C4.Diagram.layout_of_not_nodup (C4.Diagram.within_ofStatements _ _) he hn config.c4 sweeps
    exact ⟨id, hid⟩
  case archimate => cases hc
  case classDiagram => cases hc

-- A text in which a family is recognised is read, and then laid out unless boundaries are repeated.
theorem layout_ofText {text : String} {f : Family} (h : Family.detect text = .ok f) (config : Config α)
    (sweeps : Nat) : ∃ d, ofText text = .ok d ∧
      (d.RepeatsBoundary → ∃ e, d.layout config sweeps = .error e ∧ e.isStructural) ∧
      (¬d.RepeatsBoundary → ∃ p, d.layout config sweeps = .ok p) := by
  refine ⟨ofTextIn f text, by rw [ofText, h]; rfl, fun hr => ?_, exists_layout_of_text config sweeps⟩
  obtain ⟨id, hid⟩ := layout_of_repeatsBoundary config sweeps hr
  exact ⟨_, hid, rfl⟩

-- A boundary inside one of the same id.
def nestedTwice : String :=
  "C4Context
  Boundary(x, \"Outside\") \x7b
    Boundary(x, \"Inside\") \x7b
      Person(p, \"Reader\")
    \x7d
  \x7d"

theorem repeatsBoundary_nestedTwice : (ofTextIn .c4 nestedTwice).RepeatsBoundary := by
  have hread : ofTextIn .c4 nestedTwice = .c4 {
      kind := "C4Context"
      elements := [{ kind := "Person", id := "p", label := "Reader", parent := some "x" }]
      boundaries := [{
        id := "x", label := "Outside", kind := "Boundary"
        children := [{
          id := "x", label := "Inside", kind := "Boundary", parent := some "x"
          elements := [{ kind := "Person", id := "p", label := "Reader", parent := some "x" }] }] }] } := rfl
  exact ⟨_, hread, by simp, by decide⟩

theorem layout_ofText_nestedTwice : ∃ d, ofText nestedTwice = .ok d ∧
    ∃ e, d.layout (Config.standard : Config Rat) 4 = .error e ∧ e.isStructural := by
  have h : Family.detect nestedTwice = .ok .c4 := rfl
  obtain ⟨d, hd, herror, _⟩ := layout_ofText h (Config.standard : Config Rat) 4
  obtain rfl : ofTextIn .c4 nestedTwice = d := Except.ok.inj hd
  exact ⟨_, hd, herror repeatsBoundary_nestedTwice⟩

end Diagram

end LayeredDiagram
