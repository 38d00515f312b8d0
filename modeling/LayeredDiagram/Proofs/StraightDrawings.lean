import LayeredDiagram.Proofs.Balancing
import LayeredDiagram.Proofs.RouteEnds
/-!
Drawings without slanted segments. If all items can be placed at their gaps so that every segment is vertical, then
so can they be in whole hundredths, at no cost, and the placement of least cost then has no slanted segment either.
Balancing leaves such a placement alone, as every node is in the middle of its neighbours already.
-/

namespace LayeredDiagram

open LayeredDiagram.Group

namespace Flow

variable {κ : Type} {arcs : List (Arc κ)} {x y : κ → Rat} {a : Arc κ}

-- Where some placement has no distance that costs, the one of least cost has none.
theorem Leftmost.head_eq_tail (h : Leftmost arcs x) (hlength : ∀ a ∈ arcs, 0 < a.cost → 0 ≤ a.length)
    (hk : KeepsLengths (1 / 100) arcs y) (hy : ∀ a ∈ arcs, 0 < a.cost → y a.head = y a.tail) (ha : a ∈ arcs)
    (hcost : 0 < a.cost) : x a.head = x a.tail := by
  have hdistance {b : Arc κ} (hb : b ∈ arcs) (hpos : 0 < b.cost) : 0 ≤ x b.head - x b.tail := by
    have hlength : (0 : Rat) ≤ b.length := Int.cast_nonneg (hlength b hb hpos)
    have := h.keeps b hb
    linarith
  have hterms : ∀ q ∈ arcs.map fun b => (b.cost : Rat) * (x b.head - x b.tail), 0 ≤ q := by
    intro q hq
    obtain ⟨b, hb, rfl⟩ := List.mem_map.mp hq
    rcases Nat.eq_zero_or_pos b.cost with hz | hpos
    · simp [hz]
    · exact mul_nonneg (Nat.cast_nonneg _) (hdistance hb hpos)
  have hzero : placementCost arcs y = 0 := by
    refine List.sum_eq_zero fun q hq => ?_
    obtain ⟨b, hb, rfl⟩ := List.mem_map.mp hq
    rcases Nat.eq_zero_or_pos b.cost with hz | hpos
    · simp [hz]
    · rw [hy b hb hpos, sub_self, mul_zero]
  have hle : (a.cost : Rat) * (x a.head - x a.tail) ≤ placementCost arcs x :=
    List.single_le_sum hterms _ (List.mem_map.mpr ⟨a, ha, rfl⟩)
  have hpos : (0 : Rat) < a.cost := Nat.cast_pos.mpr hcost
  have hx := hdistance ha hcost
  have hprod : (a.cost : Rat) * (x a.head - x a.tail) ≤ 0 := hle.trans ((h.least_cost y hk).trans hzero.le)
  have := nonpos_of_mul_nonpos_right hprod hpos
  linarith

end Flow

namespace Abscissae

variable {arcs : List (Flow.Arc Variable)} {segments : List (Segment Rat)} {x : Abscissae Rat} {i : Item Rat}
variable {items : List (Item Rat)} {values : List (Rat × Rat)} {a : Rat}

section Medians

theorem fst_mem_of_mem_running {sum : Rat} {p : Rat × Rat} (h : p ∈ running sum values) : ∃ q ∈ values, q.1 = p.1 := by
  induction values generalizing sum
  case nil => simp [running] at h
  case cons q values hi =>
    rcases List.mem_cons.mp h with rfl | h
    · exact ⟨q, by simp, rfl⟩
    · obtain ⟨r, hr, he⟩ := hi h
      exact ⟨r, List.mem_cons_of_mem _ hr, he⟩

-- Whatever the weights are.
theorem medianMidpoint_of_forall_eq (hn : values ≠ []) (h : ∀ p ∈ values, p.1 = a) : medianMidpoint values = a := by
  have hsorted : ∀ p ∈ values.mergeSort before, p.1 = a := fun p hp => h p (List.mem_mergeSort.mp hp)
  have hlast : ((values.mergeSort before).getLast?.map (·.1)).getD 0 = a := by
    have hne : values.mergeSort before ≠ [] := by
      rw [Ne, ← List.length_eq_zero_iff, List.length_mergeSort, List.length_eq_zero_iff]
      exact hn
    rw [List.getLast?_eq_some_getLast hne]
    exact hsorted _ (List.getLast_mem hne)
  have hfound (f : Rat × Rat → Bool) :
      (((running 0.0 (values.mergeSort before)).find? f).map (·.1)).getD a = a := by
    cases hf : (running 0.0 (values.mergeSort before)).find? f
    case none => rfl
    case some p =>
      obtain ⟨q, hq, he⟩ := fst_mem_of_mem_running (List.mem_of_find?_eq_some hf)
      exact he.symm.trans (hsorted q hq)
  simp only [medianMidpoint, hlast, hfound]
  ring

end Medians

section Balance

-- Both ends of every segment are in one column.
def Upright (segments : List (Segment Rat)) (x : Abscissae Rat) : Prop :=
  ∀ s ∈ segments, x.value (.item s.upper.slot) = x.value (.item s.lower.slot)

theorem Upright.neighbours (h : Upright segments x) {n : Slot × Rat} (hn : n ∈ neighbours segments i) :
    x.value (.item n.1) = x.value (.item i.slot) := by
  rcases List.mem_append.mp hn with hn | hn
  all_goals
    obtain ⟨s, hs, rfl⟩ := List.mem_map.mp hn
    obtain ⟨hs, he⟩ := List.mem_filter.mp hs
    simp only [decide_eq_true_eq] at he
  · exact he ▸ h s hs
  · exact he ▸ (h s hs).symm

-- A node below and above its neighbours is where balancing would put it.
theorem value_balanceNode_of_upright (hk : Keeps arcs x) (h : Upright segments x) (i : Item Rat) (v : Variable) :
    (balanceNode arcs segments x i).value v = x.value v := by
  by_cases hn : neighbours segments i = []
  case pos => rw [balanceNode_of_neighbours_eq_nil hn]
  case neg =>
    obtain ⟨m, hm, _, heq⟩ := hk.exists_balanceNode_eq hn
    have htarget : middle segments x i = x.value (.item i.slot) := by
      refine medianMidpoint_of_forall_eq (by simpa using hn) fun p hp => ?_
      obtain ⟨n, hn, rfl⟩ := List.mem_map.mp hp
      exact h.neighbours hn
    rw [htarget, Set.uIcc_self, Set.mem_singleton_iff] at hm
    rw [heq, value_insert, hm]
    split
    case isTrue hv => rw [← eq_of_beq hv]
    case isFalse => rfl

-- By induction on the nodes: no node moves, so that the placement stays upright.
theorem value_balance_of_upright (hk : Keeps arcs x) (h : Upright segments x) (layers : Layers Rat) (v : Variable) :
    (balance arcs segments layers x).value v = x.value v := by
  rw [balance]
  generalize layers.flatten.filter (·.kind = .node) = items
  induction items generalizing x
  case nil => rfl
  case cons i items hi =>
    have hstay := value_balanceNode_of_upright hk h i
    rw [List.foldl_cons, hi (hk.balanceNode segments i), hstay]
    intro s hs
    rw [hstay, hstay]
    exact h s hs

end Balance

end Abscissae

section Separation

-- How far apart the centres of neighbours in a rank are at least, when neither is in a group.
def Spacing.separation (spacing : Spacing Rat) (left right : Item Rat) : Rat :=
  left.width / 2 + left.extra + (if left.isDummy || right.isDummy then spacing.edge else spacing.node) +
    right.width / 2

-- Positions that keep all neighbours apart and make every segment vertical.
structure Arrangement.Straight (spacing : Spacing Rat) (a : Arrangement Rat) (y : Slot → Rat) : Prop where
  separated : ∀ layer ∈ a.layers, layer.IsChain fun i j => y i.slot + spacing.separation i j ≤ y j.slot
  vertical : ∀ s ∈ a.stock.segments, y s.upper.slot = y s.lower.slot

variable {spacing : Spacing Rat} {i j : Item Rat} {c : Constraint Rat} {a : Arrangement Rat} {place : String → Nat}
variable {y : Slot → Rat}

theorem Constraint.between_of_path_eq_nil (hi : i.path = []) (hj : j.path = []) :
    between spacing i j = require (.item i.slot) (.item j.slot) (spacing.separation i j) := by
  cases hd : i.isDummy <;> cases hd' : j.isDummy <;>
    simp [between, bounding?, hi, hj, Chain.commonPath, Spacing.separation, hd, hd']

-- Without groups there are gaps between neighbours and helpers of segments only.
theorem Arranged.mem_all_iff (h : Arranged [] place a) : c ∈ Constraint.all spacing [] a.stock.segments a.layers ↔
    (∃ layer ∈ a.layers, ∃ p ∈ layer.zip layer.tail,
      c = .require (.item p.1.slot) (.item p.2.slot) (spacing.separation p.1 p.2)) ∨
    ∃ s k, a.stock.segments[k]? = some s ∧ c ∈ Constraint.aligned k s := by
  have hpath {layer : List (Item Rat)} (hl : layer ∈ a.layers) {i : Item Rat} (hi : i ∈ layer) : i.path = [] := by
    simpa [IsPath] using h.isPath i (h.mem_items hl hi)
  have hlayer {layer : List (Item Rat)} (hl : layer ∈ a.layers) : Constraint.ofLayer spacing layer =
      (layer.zip layer.tail).map fun p =>
        .require (.item p.1.slot) (.item p.2.slot) (spacing.separation p.1 p.2) := by
    have hinside : layer.flatMap (Constraint.inside spacing) = [] := by
      rw [List.flatMap_eq_nil_iff]
      intro i hi
      simp [Constraint.inside, hpath hl hi]
    rw [Constraint.ofLayer, hinside, List.append_nil]
    refine List.map_congr_left fun p hp => ?_
    have hm := List.of_mem_zip hp
    exact Constraint.between_of_path_eq_nil (hpath hl hm.left) (hpath hl (List.mem_of_mem_tail hm.right))
  simp only [Constraint.all, List.mem_append, List.mem_flatMap, List.flatMap_nil, List.map_nil, List.not_mem_nil,
    or_false, Prod.exists, List.mem_zipIdx_iff_getElem?]
  refine or_congr_left (exists_congr fun layer => and_congr_right fun hl => ?_)
  rw [hlayer hl]
  simp only [List.mem_map, Prod.exists, eq_comm]

-- One factor for all gaps: stretched by it, every gap is as wide as when it is counted in hundredths.
theorem Constraint.exists_stretch (cs : List (Constraint Rat)) : ∃ k : Rat, 0 ≤ k ∧
    ∀ c ∈ cs, 0 < c.gap → (scaled c.gap : Rat) / 100 ≤ k * c.gap := by
  induction cs
  case nil => exact ⟨0, le_rfl, by simp⟩
  case cons c cs hi =>
    obtain ⟨k, hk, h⟩ := hi
    refine ⟨max k ((scaled c.gap : Rat) / 100 / c.gap), hk.trans (le_max_left ..), ?_⟩
    rintro d hd hpos
    rcases List.mem_cons.mp hd with rfl | hd
    · exact (div_le_iff₀ hpos).mp (le_max_right ..)
    · exact (h d hd hpos).trans (mul_le_mul_of_nonneg_right (le_max_left ..) hpos.le)

-- All variables placed by stretched positions, helpers on the upper end of their segment.
def stretched (k : Rat) (segments : List (Segment Rat)) (y : Slot → Rat) : Variable → Rat
  | .item slot => k * y slot
  | .helper index => (segments[index]?).elim 0 fun s => k * y s.upper.slot
  | _ => 0

namespace Arranged

variable (h : Arranged [] place a)
include h

theorem exists_keepsLengths (hy : a.Straight spacing y)
    (hgap : ∀ i ∈ a.stock.items, ∀ j ∈ a.stock.items, 0 ≤ spacing.separation i j) :
    ∃ k, Flow.KeepsLengths (1 / 100) (a.arcs spacing []) (stretched k a.stock.segments y) := by
  obtain ⟨k, hk, hstretch⟩ := Constraint.exists_stretch (Constraint.all spacing [] a.stock.segments a.layers)
  refine ⟨k, fun b hb => ?_⟩
  obtain ⟨c, hc, rfl⟩ := List.mem_map.mp hb
  rcases h.mem_all_iff.mp hc with ⟨layer, hl, ⟨i, j⟩, hij, rfl⟩ | ⟨s, index, hs, hc⟩
  case inl =>
    obtain ⟨l₁, l₂, he⟩ := mem_zip_tail_iff.mp hij
    have hle : y i.slot + spacing.separation i j ≤ y j.slot :=
      List.isChain_iff_forall_rel_of_append_cons_cons.mp (hy.separated layer hl) he
    have hm := List.of_mem_zip hij
    have hnonneg := hgap i (h.mem_items hl hm.left) j (h.mem_items hl (List.mem_of_mem_tail hm.right))
    have hprod : k * spacing.separation i j ≤ k * y j.slot - k * y i.slot := by
      rw [← mul_sub]
      exact mul_le_mul_of_nonneg_left (by linarith) hk
    have hlength : (Constraint.scaled (spacing.separation i j) : Rat) / 100 ≤ k * spacing.separation i j := by
      rcases hnonneg.eq_or_lt with hz | hpos
      · rw [← hz, Constraint.scaled_zero, Int.cast_zero, zero_div, mul_zero]
      · have := hstretch _ hc
        exact this hpos
    simp only [Constraint.toArc, Constraint.require, stretched]
    linarith
  case inr =>
    simp only [Constraint.aligned, List.mem_cons, List.not_mem_nil, or_false] at hc
    rcases hc with rfl | rfl
    · simp [Constraint.toArc, stretched, hs, Constraint.scaled_zero]
    · simp [Constraint.toArc, stretched, hs, Constraint.scaled_zero, hy.vertical s (List.mem_of_getElem? hs)]

-- The only distances that cost are those from helpers to the ends of their segments.
theorem exists_aligned {b : Flow.Arc Variable} (hb : b ∈ a.arcs spacing []) (hcost : 0 < b.cost) :
    ∃ s k, a.stock.segments[k]? = some s ∧ b.length = 0 ∧ b.tail = .helper k ∧
      (b.head = .item s.upper.slot ∨ b.head = .item s.lower.slot) := by
  obtain ⟨c, hc, rfl⟩ := List.mem_map.mp hb
  rcases h.mem_all_iff.mp hc with ⟨layer, hl, p, hp, rfl⟩ | ⟨s, k, hs, hc⟩
  · simp [Constraint.toArc, Constraint.require] at hcost
  · simp only [Constraint.aligned, List.mem_cons, List.not_mem_nil, or_false] at hc
    rcases hc with rfl | rfl
    · exact ⟨s, k, hs, Constraint.scaled_zero, rfl, .inl rfl⟩
    · exact ⟨s, k, hs, Constraint.scaled_zero, rfl, .inr rfl⟩

theorem upright_place (hy : a.Straight spacing y)
    (hgap : ∀ i ∈ a.stock.items, ∀ j ∈ a.stock.items, 0 ≤ spacing.separation i j) :
    Abscissae.Upright a.stock.segments (Abscissae.ofLabels (Flow.place (a.arcs spacing []))) := by
  have hleast := Flow.leftmost_place (h.acyclic spacing)
  obtain ⟨k, hk⟩ := h.exists_keepsLengths hy hgap
  have hlength : ∀ b ∈ a.arcs spacing [], 0 < b.cost → 0 ≤ b.length := by
    intro b hb hcost
    obtain ⟨_, _, _, hz, _⟩ := h.exists_aligned hb hcost
    exact hz.ge
  have hy : ∀ b ∈ a.arcs spacing [], 0 < b.cost →
      stretched k a.stock.segments y b.head = stretched k a.stock.segments y b.tail := by
    intro b hb hcost
    obtain ⟨s, index, hs, _, htail, hhead⟩ := h.exists_aligned hb hcost
    rcases hhead with hhead | hhead
    · simp [htail, hhead, stretched, hs]
    · simp [htail, hhead, stretched, hs, hy.vertical s (List.mem_of_getElem? hs)]
  intro s hs
  obtain ⟨index, hindex⟩ := List.getElem?_of_mem hs
  have hmem {c : Constraint Rat} (hc : c ∈ Constraint.aligned index s) : c.toArc ∈ a.arcs spacing [] :=
    List.mem_map_of_mem (h.mem_all_iff.mpr (.inr ⟨s, index, hindex, hc⟩))
  have hcost : 0 < Constraint.segmentCost s := lt_of_lt_of_le Nat.one_pos (le_max_left ..)
  have hupper := hleast.head_eq_tail hlength hk hy (hmem (c := ⟨.helper index, .item s.upper.slot, 0, _⟩)
    List.mem_cons_self) hcost
  have hlower := hleast.head_eq_tail hlength hk hy (hmem (c := ⟨.helper index, .item s.lower.slot, 0, _⟩)
    (List.mem_cons_of_mem _ List.mem_cons_self)) hcost
  rw [Abscissae.value_ofLabels, Abscissae.value_ofLabels]
  exact hupper.trans hlower.symm

-- Balancing keeps what is upright.
theorem upright_ofLayers (hy : a.Straight spacing y)
    (hgap : ∀ i ∈ a.stock.items, ∀ j ∈ a.stock.items, 0 ≤ spacing.separation i j) :
    Abscissae.Upright a.stock.segments (Abscissae.ofLayers spacing [] a.stock.segments a.layers) := by
  have hA : Acyclic (Follows ((a.arcs spacing []).map fun b => (b.tail, b.head))) := h.acyclic spacing
  have hplace := h.upright_place hy hgap
  have hstay := Abscissae.value_balance_of_upright (Abscissae.keeps_place hA) hplace a.layers
  intro s hs
  rw [Abscissae.ofLayers]
  exact (hstay _).trans ((hplace s hs).trans (hstay _).symm)

end Arranged

end Separation

section Sizes

variable {nodes : List (SizedNode Rat)} {edges : List (SizedEdge Rat)} {spacing : Spacing Rat} {e : SizedEdge Rat}
variable {i j : Item Rat} {entries : List Entry}

namespace Loop

theorem selfLoop_le_room (spacing : Spacing Rat) (e : SizedEdge Rat) : spacing.selfLoop ≤ room spacing e := by
  unfold room
  split
  case isTrue hl =>
    simp only [SizedEdge.hasLabel, Bool.and_eq_true, decide_eq_true_eq] at hl
    have : (0 : Rat) ≤ labelGap := by decide
    linarith [hl.left.right]
  case isFalse => exact le_rfl

theorem room_nonneg (hs : 0 ≤ spacing.selfLoop) (e : SizedEdge Rat) : 0 ≤ room spacing e :=
  hs.trans (selfLoop_le_room spacing e)

theorem reach_nonneg (hs : 0 ≤ spacing.selfLoop) (edges : List (SizedEdge Rat)) (v : String) :
    0 ≤ reach (all spacing edges) v := by
  revert v
  refine all_induction (P := fun loops => ∀ v, 0 ≤ reach loops v) ?nil fun loops e _ _ _ _ h v => ?add
  case nil => norm_num [reach, ofNode]
  case add =>
    rw [add, reach_concat]
    split
    case isTrue => exact add_nonneg (h _) (room_nonneg hs e)
    case isFalse => exact h v

end Loop

namespace Stock

theorem width_nonneg_of_mem_items (hn : ∀ n ∈ nodes, 0 ≤ n.width) (hs : 0 ≤ spacing.selfLoop)
    (hi : i ∈ (ofNodes nodes edges spacing entries).items) : 0 ≤ i.width ∧ 0 ≤ i.extra := by
  rcases mem_items_cases hi with hi | ⟨c, hc, hi⟩ | ⟨e, _, hi⟩ | ⟨e, _, r, hi⟩
  · obtain ⟨n, hnm, rfl⟩ := mem_nodeItemsOf_iff.mp hi
    exact ⟨hn n hnm, Loop.reach_nonneg hs edges n.id⟩
  · have ⟨o, _, _, e, upper, lower, hco⟩ := Chain.exists_connects_of_mem hc
    have hb := Chain.bendAt_of_mem_bends (hco.inner_eq ▸ hi)
    rw [hb.extra]
    rcases hb.kind with ⟨_, hl, hw, _⟩ | ⟨_, hw, _⟩ <;> rw [hw]
    · simp only [SizedEdge.hasLabel, Bool.and_eq_true, decide_eq_true_eq] at hl
      exact ⟨hl.left.right.le, le_rfl⟩
    · exact ⟨le_rfl, le_rfl⟩
  · obtain ⟨_, _, rfl⟩ := placeholder?_eq_some hi
    simp only [Scalar.larger_eq_max]
    exact ⟨le_max_left .., le_rfl⟩
  · exact hi ▸ ⟨le_rfl, le_rfl⟩

end Stock

theorem Spacing.separation_nonneg (hs : ∀ q ∈ spacing.lengths, 0 ≤ q) (hi : 0 ≤ i.width ∧ 0 ≤ i.extra)
    (hj : 0 ≤ j.width) : 0 ≤ spacing.separation i j := by
  have hnode : 0 ≤ spacing.node := hs _ (by simp [lengths])
  have hedge : 0 ≤ spacing.edge := hs _ (by simp [lengths])
  unfold separation
  split <;> linarith [hi.left, hi.right]

end Sizes

section Routes

variable {g : SizedGraph Rat} {place : String → Nat} {s : Solution Rat} {nodeItems : List (Item Rat)} {c : Chain Rat}
variable {o : OrientedEdge String} {e : SizedEdge Rat} {upper lower : Item Rat}

-- All items of a chain are in the column of its upper end.
theorem Chain.value_eq_of_upright (hx : Abscissae.Upright c.segments s.x) {i j : Item Rat} (hi : i ∈ c.items)
    (hj : j ∈ c.items) : s.x.value (.item i.slot) = s.x.value (.item j.slot) := by
  have hchain : (c.items.map fun i => s.x.value (.item i.slot)).IsChain (· = ·) := by
    rw [List.isChain_map, List.isChain_iff_forall_rel_of_append_cons_cons]
    intro i j l₁ l₂ he
    exact hx ⟨i, j, c.weight⟩ (List.mem_map.mpr ⟨(i, j), mem_zip_tail_iff.mpr ⟨l₁, l₂, he⟩, rfl⟩)
  exact (List.isChain_iff_pairwise.mp hchain).forall_of_forall (fun _ _ => rfl) (List.mem_map_of_mem hi)
    (List.mem_map_of_mem hj)

theorem Chain.Connects.x_eq_of_upright (h : Connects nodeItems g.edges o e upper lower c)
    (hx : Abscissae.Upright c.segments s.x) {p : Point Rat} (hp : p ∈ s.chainPoints c) :
    p.x = s.x.value (.item upper.slot) := by
  have hupper : upper ∈ c.items := h.mem_items_iff.mpr (.inl rfl)
  rw [h.chainPoints_eq] at hp
  simp only [List.cons_append, List.mem_cons, List.mem_append, List.mem_map, List.not_mem_nil, or_false] at hp
  rcases hp with rfl | ⟨seg, hseg, rfl⟩ | rfl
  · rfl
  · obtain ⟨⟨i, j⟩, hij, rfl⟩ := List.mem_map.mp hseg
    exact value_eq_of_upright hx (List.mem_of_mem_tail (List.of_mem_zip hij).right) hupper
  · exact value_eq_of_upright hx (h.mem_items_iff.mpr (.inr (.inr rfl))) hupper

theorem Solution.mem_chainRoute_iff {p : Point Rat} : p ∈ s.chainRoute c ↔ p ∈ s.chainPoints c := by
  unfold chainRoute
  split
  case isTrue => exact List.mem_reverse
  case isFalse => exact Iff.rfl

-- An edge drawn in one column, with both of its nodes and all items of its chain.
structure Solution.InColumn (s : Solution Rat) (raw : RawLayout Rat) (k : Nat) (e : SizedEdge Rat) (x : Rat) :
    Prop where
  source : ∃ p, raw.centers.lookup e.source = some p ∧ p.x = x
  target : ∃ p, raw.centers.lookup e.target = some p ∧ p.x = x
  route : ∃ route, raw.routes.lookup k = some route ∧ ∀ p ∈ route, p.x = x
  items : ∃ c ∈ s.stock.chains, c.edge = k ∧ ∀ i ∈ c.items, s.x.value (.item i.slot) = x

theorem Stacked.inColumn (hs : Stacked g place s) (hx : Abscissae.Upright s.stock.segments s.x) {k : Nat}
    {upper lower : SizedNode Rat} (h : ChainOf g s e k upper lower c) :
    s.InColumn (g.rawOf s) k e (s.x.value (.item (g.itemOf upper).slot)) := by
  obtain ⟨o, hc⟩ := h.connects
  have hx : Abscissae.Upright c.segments s.x := fun seg hseg => hx seg (List.mem_flatMap.mpr ⟨c, h.mem, hseg⟩)
  have hupper : g.itemOf upper ∈ c.items := hc.mem_items_iff.mpr (.inl rfl)
  have hlower : g.itemOf lower ∈ c.items := hc.mem_items_iff.mpr (.inr (.inr rfl))
  have hlookup := hs.lookup_nodeCenters h.upper_mem
  have hlookup' := hs.lookup_nodeCenters h.lower_mem
  have hends := Chain.value_eq_of_upright hx hlower hupper
  constructor
  case source =>
    rcases h.ends with ⟨hu, _, _⟩ | ⟨_, hl, _⟩
    · exact ⟨_, hu ▸ hlookup, rfl⟩
    · exact ⟨_, hl ▸ hlookup', hends⟩
  case target =>
    rcases h.ends with ⟨_, hl, _⟩ | ⟨hu, _, _⟩
    · exact ⟨_, hl ▸ hlookup', hends⟩
    · exact ⟨_, hu ▸ hlookup, rfl⟩
  case route => exact ⟨_, hs.lookup_routes h, fun p hp => hc.x_eq_of_upright hx (Solution.mem_chainRoute_iff.mp hp)⟩
  case items => exact ⟨c, h.mem, h.edge, fun i hi => Chain.value_eq_of_upright hx hi hupper⟩

end Routes

namespace RawLayout

variable {nodes : List (SizedNode Rat)} {edges : List (SizedEdge Rat)} {spacing : Spacing Rat}

theorem ofGraph_inColumn (hv : Register.error? nodes edges [] = none) (hn : ∀ n ∈ nodes, 0 ≤ n.width ∧ 0 ≤ n.height)
    (hs : ∀ q ∈ spacing.lengths, 0 ≤ q) (sweeps : Nat)
    (hy : ∃ y, (Arrangement.ofGraph sweeps nodes edges spacing []).Straight spacing y) :
    ∃ raw, ofGraph sweeps nodes edges spacing [] = .ok raw ∧
      ∀ k e, edges[k]? = some e → e.kind = .real → e.source ≠ e.target →
        ∃ x, (Solution.solve sweeps nodes edges spacing []).InColumn raw k e x := by
  have hw : WellFormed nodes edges [] := Register.error?_eq_none_iff.mp hv
  by_cases hnil : nodes = []
  case pos =>
    refine ⟨{}, by simp [ofGraph, hnil], fun k e he _ _ => ?_⟩
    have := (hw.ends_mem e (List.mem_of_getElem? he)).left
    simp [hnil] at this
  case neg =>
    let g : SizedGraph Rat := { nodes, edges, spacing, groups := [], margin := ⟨0, 0⟩ }
    have hraw : ofGraph sweeps nodes edges spacing [] = .ok (g.rawOf (g.solution sweeps)) := by
      simp only [ofGraph, List.isEmpty_iff, hnil, if_false, forest, hv]
      rfl
    obtain ⟨place, hst⟩ := SizedGraph.exists_stacked (g := g) hw hs (fun n hnm => (hn n hnm).right) sweeps
    have hloop : 0 ≤ g.spacing.selfLoop := hs g.spacing.selfLoop (by simp [Spacing.lengths, g])
    have hwidth {i : Item Rat} (hi : i ∈ (g.solution sweeps).stock.items) : 0 ≤ i.width ∧ 0 ≤ i.extra :=
      Stock.width_nonneg_of_mem_items (fun n hnm => (hn n hnm).left) hloop hi
    obtain ⟨y, hy⟩ := hy
    have hx := hst.arranged.upright_ofLayers hy fun i hi j hj =>
      Spacing.separation_nonneg hs (hwidth hi) (hwidth hj).left
    refine ⟨_, hraw, fun k e he hk hne => ?_⟩
    obtain ⟨upper, lower, c, hc⟩ := hst.exists_chainOf he hk hne
    exact ⟨_, hst.inColumn hx hc⟩

-- A labelled edge over three ranks, one more below it and a loop, beside a shorter chain.
def columns : SizedGraph Rat where
  nodes := [{ id := "d", width := 20, height := 10 }, { id := "e", width := 60, height := 10 },
    { id := "a", width := 40, height := 20 }, { id := "b", width := 50, height := 20 },
    { id := "c", width := 30, height := 10 }]
  edges := [.labelled "a" "b" (some "calls") 30 10, .labelled "b" "c" none 0 0,
    .labelled "b" "b" (some "again") 30 10, .labelled "d" "e" none 0 0]
  groups := []
  spacing := .standard
  margin := ⟨10, 10⟩

abbrev columns.arrangement : Arrangement Rat :=
  .ofGraph 4 columns.nodes columns.edges columns.spacing []

-- The shorter chain to the left of the other one.
def columns.position (slot : Slot) : Rat :=
  if slot = .node "d" ∨ slot = .node "e" then 0 else 200

theorem columns.layers_eq : columns.arrangement.layers = columns.arrangement.stock.layers := by
  have hcrossings : Layers.crossings columns.arrangement.stock.segments columns.arrangement.stock.layers = 0 := by
    decide +kernel
  exact Layers.ofStock_of_crossings_eq_zero hcrossings (fun _ _ _ => rfl) 4

theorem columns.straight : columns.arrangement.Straight columns.spacing columns.position := by
  constructor
  case separated =>
    rw [layers_eq]
    decide +kernel
  case vertical => decide +kernel

theorem ofGraph_inColumn_columns : Register.error? columns.nodes columns.edges [] = none ∧
    (∀ n ∈ columns.nodes, 0 ≤ n.width ∧ 0 ≤ n.height) ∧ (∀ q ∈ columns.spacing.lengths, 0 ≤ q) ∧
    columns.arrangement.Straight columns.spacing columns.position ∧
    ∃ raw, ofGraph 4 columns.nodes columns.edges columns.spacing [] = .ok raw ∧
      ∃ x, (Solution.solve 4 columns.nodes columns.edges columns.spacing []).InColumn raw 0
        (.labelled "a" "b" (some "calls") 30 10) x := by
  have hv : Register.error? columns.nodes columns.edges [] = none := by decide
  have hn : ∀ n ∈ columns.nodes, 0 ≤ n.width ∧ 0 ≤ n.height := by decide +kernel
  have hs : ∀ q ∈ columns.spacing.lengths, 0 ≤ q := by decide +kernel
  obtain ⟨raw, hraw, h⟩ := ofGraph_inColumn hv hn hs 4 ⟨_, columns.straight⟩
  exact ⟨hv, hn, hs, columns.straight, raw, hraw, h 0 _ rfl rfl (by decide)⟩

end RawLayout

end LayeredDiagram
