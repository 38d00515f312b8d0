import LayeredDiagram.Proofs.Decimals
import LayeredDiagram.Proofs.Existence
/-!
Horizontal coordinates over exact arithmetic. The placement of least cost keeps all gaps, since they are
counted in whole hundredths and never rounded down, and the moves that balance nodes keep them too.
-/

namespace LayeredDiagram

variable {arcs : List (Flow.Arc Variable)} {x : Abscissae Rat} {v : Variable} {gap : Rat}

namespace Constraint

theorem le_scaled (h : HasDecimals 8 gap) : gap ≤ (scaled gap : Rat) / 100 := by
  have hg : HasDecimals 6 (gap * 100) := by
    have ⟨n, hn⟩ := h
    refine ⟨n, ?_⟩
    rw [← hn]
    ring
  have hc : gap * 100 ≤ (scaled gap : Rat) := by
    have := Rat.le_ceil (x := gap * 100)
    rwa [scaled, hundredths, hg.sixDecimals_eq]
  linarith

theorem scaled_zero : scaled (0 : Rat) = 0 := by
  decide +kernel

end Constraint

namespace Abscissae

theorem value_ofLabels (labels : Flow.Labels Variable) (v : Variable) :
    (ofLabels labels : Abscissae Rat).value v = (Flow.coordinate labels v : Rat) / 100 := by
  rw [value, ofLabels, Std.HashMap.getD_map, Flow.coordinate, Flow.Labels.label,
    Std.HashMap.getD_eq_getD_getElem?]
  cases labels[v]?
  case none => norm_num
  case some l => rfl

-- The lengths of all arcs that do not start at a helper are kept.
def Keeps (arcs : List (Flow.Arc Variable)) (x : Abscissae Rat) : Prop :=
  ∀ a ∈ arcs, (∀ i, a.tail ≠ .helper i) → x.value a.tail + (a.length : Rat) / 100 ≤ x.value a.head

theorem keeps_place (h : Acyclic (Follows (arcs.map fun a => (a.tail, a.head)))) :
    Keeps arcs (ofLabels (Flow.place arcs)) := by
  have ⟨hf, labels, hl⟩ := Flow.optimal_spec h
  have hx := (Flow.coordinate_of_shortest hl).left.of_bare hf.bare.symm
  intro a ha _
  have : ((a.length : Int) : Rat) ≤ ((Flow.coordinate labels a.head - Flow.coordinate labels a.tail : Int) : Rat) :=
    Int.cast_le.mpr (hx a ha)
  push_cast at this
  rw [Flow.place, hl, value_ofLabels, value_ofLabels]
  linarith

theorem exists_lowest? {a : Flow.Arc Variable} (ha : a ∈ arcs) (ht : ∀ i, a.tail ≠ .helper i)
    (x : Abscissae Rat) :
    ∃ low, lowest? arcs x a.head = some low ∧ x.value a.tail + (a.length : Rat) / 100 ≤ low := by
  unfold lowest?
  refine Scalar.exists_largest? (List.mem_filterMap.mpr ⟨a, List.mem_filter.mpr ⟨ha, by simp⟩, ?_⟩)
  cases hat : a.tail
  case helper i => exact absurd hat (ht i)
  all_goals rfl

theorem exists_highest? {a : Flow.Arc Variable} (ha : a ∈ arcs) (ht : ∀ i, a.tail ≠ .helper i)
    (x : Abscissae Rat) :
    ∃ high, highest? arcs x a.tail = some high ∧ high ≤ x.value a.head - (a.length : Rat) / 100 := by
  unfold highest?
  refine Scalar.exists_smallest? (List.mem_filterMap.mpr ⟨a, List.mem_filter.mpr ⟨ha, by simp⟩, ?_⟩)
  cases hat : a.tail
  case helper i => exact absurd hat (ht i)
  all_goals rfl

theorem clamp?_eq_some {target m : Rat} {low high : Option Rat} (h : clamp? target low high = some m) :
    (∀ l, low = some l → l ≤ m) ∧ ∀ u, high = some u → m ≤ u := by
  cases low <;> cases high
  all_goals
    simp only [clamp?, Option.elim_some, Option.elim_none, Scalar.larger, Scalar.smaller] at h
    grind

theorem value_insert (m : Rat) (w : Variable) :
    value (x.insert v m) w = if v == w then m else x.value w :=
  Std.HashMap.getD_insert

-- A variable moves between the lowest and the highest place that its arcs leave it.
theorem Keeps.balanceNode (h : Keeps arcs x) (segments : List (Segment Rat)) (i : Item Rat) :
    Keeps arcs (balanceNode arcs segments x i) := by
  simp only [Abscissae.balanceNode]
  split
  case isTrue => exact h
  case isFalse =>
    split
    case h_2 => exact h
    case h_1 m hm =>
      have ⟨hlow, hhigh⟩ := clamp?_eq_some hm
      intro a ha ht
      have hkept := h a ha ht
      rw [value_insert, value_insert]
      by_cases htail : Variable.item i.slot = a.tail
      case pos =>
        have ⟨high, hs, hle⟩ := exists_highest? ha ht x
        have := hhigh high (htail ▸ hs)
        by_cases hhead : Variable.item i.slot = a.head
        case pos =>
          -- What is between a variable and itself is kept at all places or at none.
          simp only [← htail, ← hhead, beq_self_eq_true, if_true] at hkept ⊢
          linarith
        case neg =>
          simp only [htail, beq_self_eq_true, if_true, beq_iff_eq, htail ▸ hhead, if_false]
          linarith
      case neg =>
        by_cases hhead : Variable.item i.slot = a.head
        case pos =>
          have ⟨low, hs, hle⟩ := exists_lowest? ha ht x
          have := hlow low (hhead ▸ hs)
          simp only [beq_iff_eq, hhead, if_true, hhead ▸ htail, if_false]
          linarith
        case neg => simpa only [beq_iff_eq, htail, hhead, if_false] using hkept

-- By induction on the items that move.
theorem Keeps.foldl_balanceNode (h : Keeps arcs x) (segments : List (Segment Rat)) (items : List (Item Rat)) :
    Keeps arcs (items.foldl (Abscissae.balanceNode arcs segments) x) := by
  induction items generalizing x
  case nil => exact h
  case cons i items hi => exact hi (h.balanceNode segments i)

theorem Keeps.balance (h : Keeps arcs x) (segments : List (Segment Rat)) (layers : Layers Rat) :
    Keeps arcs (balance arcs segments layers x) :=
  h.foldl_balanceNode segments _

end Abscissae

variable {entries : List Group.Entry} {place : String → Nat} {a : Arrangement Rat} {spacing : Spacing Rat}

-- A constraint is kept by coordinates if its ends are as far apart as it asks for.
def Constraint.Kept (x : Abscissae Rat) (c : Constraint Rat) : Prop :=
  x.value c.tail + c.gap ≤ x.value c.head

-- The coordinates of a layout keep all gaps that have at most eight decimals.
theorem Arranged.kept (h : Arranged entries place a) {c : Constraint Rat}
    (hc : c ∈ Constraint.all spacing entries a.stock.segments a.layers) (ht : ∀ i, c.tail ≠ .helper i)
    (hg : HasDecimals 8 c.gap) : c.Kept (Abscissae.ofLayers spacing entries a.stock.segments a.layers) := by
  have ha : Acyclic (Follows ((a.arcs spacing entries).map fun b => (b.tail, b.head))) := h.acyclic spacing
  have hk := (Abscissae.keeps_place ha).balance a.stock.segments a.layers
  have hs := Constraint.le_scaled hg
  exact (add_le_add_right hs _).trans (hk c.toArc (List.mem_map_of_mem hc) ht)

end LayeredDiagram
