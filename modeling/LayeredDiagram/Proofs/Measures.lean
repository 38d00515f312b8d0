import LayeredDiagram.Proofs.Decimals
import LayeredDiagram.Proofs.Items
import LayeredDiagram.Proofs.Loops
/-!
Sizes and gaps that are measured exactly: they are not negative and have at most seven decimals. If those of a
graph are, then so are those of all items, among them the room that loops take beside their node.
-/

namespace LayeredDiagram

variable {p q : Rat} {nodes : List (SizedNode Rat)} {edges : List (SizedEdge Rat)} {spacing : Spacing Rat}
variable {entries : List Group.Entry}

-- A length that is counted without rounding.
structure IsMeasure (q : Rat) : Prop where
  nonneg : 0 ≤ q
  decimals : HasDecimals 7 q

namespace IsMeasure

theorem natCast (n : Nat) : IsMeasure n :=
  ⟨Nat.cast_nonneg n, .natCast 7 n⟩

theorem intCast {n : Int} (h : 0 ≤ n) : IsMeasure n := by
  obtain ⟨m, rfl⟩ := Int.eq_ofNat_of_zero_le h
  exact natCast m

theorem zero : IsMeasure 0 :=
  .natCast 0

theorem one : IsMeasure 1 := by
  simpa using natCast 1

theorem ofNat (n : Nat) [n.AtLeastTwo] : IsMeasure (ofNat(n) : Rat) :=
  .natCast n

theorem add (hp : IsMeasure p) (hq : IsMeasure q) : IsMeasure (p + q) :=
  ⟨add_nonneg hp.nonneg hq.nonneg, hp.decimals.add hq.decimals⟩

end IsMeasure

namespace SizedEdge

variable {source target : String} {label : Option String} {width height : Rat}

theorem isMeasure_labelled (hw : IsMeasure width) (hh : IsMeasure height) :
    IsMeasure (labelled source target label width height).labelWidth ∧
    IsMeasure (labelled source target label width height).labelHeight := by
  simp only [labelled]
  split
  case isTrue => exact ⟨hw, hh⟩
  case isFalse => exact ⟨.zero, .zero⟩

theorem isMeasure_ordering {weight : Rat} : IsMeasure (ordering source target weight).labelWidth ∧
    IsMeasure (ordering source target weight).labelHeight :=
  ⟨.zero, .zero⟩

end SizedEdge

-- The lengths that a graph is given with, apart from its margins.
def Spacing.lengths (s : Spacing Rat) : List Rat :=
  [s.node, s.rank, s.edge, s.groupPadding, s.groupHeader, s.emptyGroupWidth, s.emptyGroupHeight, s.selfLoop]

structure Measured (nodes : List (SizedNode Rat)) (edges : List (SizedEdge Rat)) (spacing : Spacing Rat) : Prop where
  nodes : ∀ n ∈ nodes, IsMeasure n.width ∧ IsMeasure n.height
  edges : ∀ e ∈ edges, IsMeasure e.labelWidth ∧ IsMeasure e.labelHeight
  spacing : ∀ q ∈ spacing.lengths, IsMeasure q

namespace Loop

variable {loops : List (Loop Rat)} {l m : Loop Rat} {e : SizedEdge Rat} {v : String}

theorem isMeasure_room (hs : IsMeasure spacing.selfLoop) (he : IsMeasure e.labelWidth) :
    IsMeasure (room spacing e) := by
  unfold room
  split
  case isTrue => exact hs.add ((IsMeasure.natCast 4).add he)
  case isFalse => exact hs

theorem reach_concat : reach (loops ++ [l]) v = if l.node = v then l.outer else reach loops v := by
  unfold reach ofNode
  by_cases h : l.node = v
  case pos => simp [h]
  case neg => simp [h]

-- Loops of one node stand outside those before them, and all of them within the reach of the node.
structure Nested (loops : List (Loop Rat)) : Prop where
  pairwise : loops.Pairwise fun l m => l.node = m.node → l.outer ≤ m.inner
  le_reach : ∀ l ∈ loops, l.outer ≤ reach loops l.node
  isMeasure_inner : ∀ l ∈ loops, IsMeasure l.inner
  isMeasure_reach : ∀ v, IsMeasure (reach loops v)

theorem nested_nil : Nested [] where
  pairwise := .nil
  le_reach := by simp
  isMeasure_inner := by simp
  isMeasure_reach _ := by
    have h : (0.0 : Rat) = 0 := by norm_num
    simpa [reach, ofNode, h] using IsMeasure.zero

theorem Nested.concat (h : Nested loops) (hi : l.inner = reach loops l.node)
    (ho : IsMeasure (l.outer - l.inner)) : Nested (loops ++ [l]) := by
  have hle : reach loops l.node ≤ l.outer := by
    have := ho.nonneg
    linarith
  constructor
  case pairwise =>
    rw [List.pairwise_append]
    refine ⟨h.pairwise, List.pairwise_singleton .., fun m hm k hk hn => ?_⟩
    obtain rfl := List.mem_singleton.mp hk
    rw [hi, ← hn]
    exact h.le_reach m hm
  case le_reach =>
    intro m hm
    rw [reach_concat]
    split
    case isTrue hn =>
      cases List.mem_append.mp hm
      case inl hm => exact (hn ▸ h.le_reach m hm).trans hle
      case inr hm => exact (List.mem_singleton.mp hm ▸ le_rfl)
    case isFalse hn =>
      cases List.mem_append.mp hm
      case inl hm => exact h.le_reach m hm
      case inr hm => exact absurd (congrArg Loop.node (List.mem_singleton.mp hm)).symm hn
  case isMeasure_inner =>
    intro m hm
    cases List.mem_append.mp hm
    case inl hm => exact h.isMeasure_inner m hm
    case inr hm => exact List.mem_singleton.mp hm ▸ hi ▸ h.isMeasure_reach l.node
  case isMeasure_reach =>
    intro v
    rw [reach_concat]
    split
    case isTrue hn =>
      have := (h.isMeasure_reach l.node).add ho
      rwa [← hi, add_sub_cancel] at this
    case isFalse => exact h.isMeasure_reach v

theorem nested_all (hs : IsMeasure spacing.selfLoop) (he : ∀ e ∈ edges, IsMeasure e.labelWidth) :
    Nested (all spacing edges) :=
  all_induction nested_nil fun _ e _ hmem _ _ h =>
    h.concat rfl (by simpa using isMeasure_room hs (he e (List.mem_of_getElem? hmem)))

end Loop

namespace Stock

-- Items have the sizes of the nodes and labels that they stand for, or none.
theorem isMeasure_of_mem_items (h : Measured nodes edges spacing) {i : Item Rat}
    (hi : i ∈ (ofNodes nodes edges spacing entries).items) :
    IsMeasure i.width ∧ IsMeasure i.height ∧ IsMeasure i.extra := by
  have hs {q : Rat} (hq : q ∈ spacing.lengths) := h.spacing q hq
  have larger {q : Rat} (hq : HasDecimals 7 q) : IsMeasure (Scalar.larger 0 q) := by
    rw [Scalar.larger_eq_max]
    exact ⟨le_max_left .., .max (.natCast 7 0) hq⟩
  have hp := (hs (q := spacing.groupPadding) (by simp [Spacing.lengths])).decimals
  have twice : HasDecimals 7 (2 * spacing.groupPadding) := two_mul spacing.groupPadding ▸ hp.add hp
  rcases mem_items_cases hi with hi | ⟨c, hc, hi⟩ | ⟨e, _, hi⟩ | ⟨e, _, r, hi⟩
  · obtain ⟨n, hn, rfl⟩ := mem_nodeItemsOf_iff.mp hi
    have hl := Loop.nested_all (hs (q := spacing.selfLoop) (by simp [Spacing.lengths])) fun e he => (h.edges e he).left
    exact ⟨(h.nodes n hn).left, (h.nodes n hn).right, hl.isMeasure_reach n.id⟩
  · have ⟨o, _, _, e, upper, lower, hco⟩ := Chain.exists_connects_of_mem hc
    have hb := Chain.bendAt_of_mem_bends (hco.inner_eq ▸ hi)
    rw [hb.extra]
    rcases hb.kind with ⟨_, _, hw, hh⟩ | ⟨_, hw, hh⟩ <;> rw [hw, hh]
    · have he := h.edges e (List.mem_of_getElem? hco.edge_eq)
      exact ⟨he.left, he.right, .zero⟩
    · exact ⟨.zero, .zero, .zero⟩
  · obtain ⟨_, _, rfl⟩ := placeholder?_eq_some hi
    have hw := (hs (q := spacing.emptyGroupWidth) (by simp [Spacing.lengths])).decimals
    have hh := (hs (q := spacing.emptyGroupHeight) (by simp [Spacing.lengths])).decimals
    have hg := (hs (q := spacing.groupHeader) (by simp [Spacing.lengths])).decimals
    exact ⟨larger (hw.sub twice), larger ((hh.sub twice).sub hg), .zero⟩
  · rw [hi]
    exact ⟨.zero, .zero, .zero⟩

-- Labels that are kept room for have a height, so that only the heights of the nodes matter.
theorem height_nonneg_of_mem_items (hn : ∀ n ∈ nodes, 0 ≤ n.height) {i : Item Rat}
    (hi : i ∈ (ofNodes nodes edges spacing entries).items) : 0 ≤ i.height := by
  rcases mem_items_cases hi with hi | ⟨c, hc, hi⟩ | ⟨e, _, hi⟩ | ⟨e, _, r, hi⟩
  · obtain ⟨n, hnm, rfl⟩ := mem_nodeItemsOf_iff.mp hi
    exact hn n hnm
  · have ⟨o, _, _, e, upper, lower, hco⟩ := Chain.exists_connects_of_mem hc
    rcases (Chain.bendAt_of_mem_bends (hco.inner_eq ▸ hi)).kind with ⟨_, hl, _, hh⟩ | ⟨_, _, hh⟩
    · simp only [SizedEdge.hasLabel, Bool.and_eq_true, decide_eq_true_eq] at hl
      exact hh ▸ hl.right.le
    · exact hh ▸ le_rfl
  · obtain ⟨_, _, rfl⟩ := placeholder?_eq_some hi
    simp only [Scalar.larger_eq_max]
    exact le_max_left ..
  · exact hi ▸ le_rfl

end Stock

end LayeredDiagram
