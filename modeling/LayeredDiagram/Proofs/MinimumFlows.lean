import LayeredDiagram.Proofs.Coordinates
import Mathlib.Algebra.Order.Floor.Ring
import Mathlib.Data.Rat.Floor
import Mathlib.Order.Bounds.Basic
/-!
Flows of minimum weight determine the coordinates. No closed route of the residual graph of such a flow has negative
weight, and the least weights of routes with their signs changed are a placement of least cost: it leaves no slack
along the flow, as complementary slackness asks for. Any other placement of least cost leaves none either, so that
it keeps every step of the residual graph, and if nothing of it is to the left of zero, then nothing is to the left
of where the least weights put it. This says nothing of the flow, so that all flows of minimum weight give one
placement, and the network in which parallel arcs are made one gives it too.
-/

namespace LayeredDiagram

namespace Flow

variable {κ : Type} {arcs base flow other : List (Arc κ)} {a b : Arc κ} {u v : κ} {walk : List (Step κ)}

section Slack

variable {R : Type} [CommRing R] [LinearOrder R] {unit : R} {x y : κ → R}

-- Placements that keep all lengths, measured in some unit.
def KeepsLengths (unit : R) (arcs : List (Arc κ)) (x : κ → R) : Prop :=
  ∀ a ∈ arcs, unit * a.length ≤ x a.head - x a.tail

def placementCost (arcs : List (Arc κ)) (x : κ → R) : R :=
  (arcs.map fun a => (a.cost : R) * (x a.head - x a.tail)).sum

-- What a flow sends over the lengths of its arcs.
def sentLength (unit : R) (arcs : List (Arc κ)) : R :=
  (arcs.map fun a => (a.flow : R) * (unit * a.length)).sum

omit [LinearOrder R] in
theorem placementCost_of_bare (h : flow.map Arc.bare = base.map Arc.bare) (x : κ → R) :
    placementCost flow x = placementCost base x := by
  have hbare (arcs : List (Arc κ)) : placementCost (arcs.map Arc.bare) x = placementCost arcs x := by
    simp [placementCost, Function.comp_def, Arc.bare]
  rw [← hbare flow, ← hbare base, h]

theorem KeepsLengths.of_bare (h : flow.map Arc.bare = base.map Arc.bare) (hx : KeepsLengths unit base x) :
    KeepsLengths unit flow x := by
  have hbare (arcs : List (Arc κ)) : KeepsLengths unit (arcs.map Arc.bare) x ↔ KeepsLengths unit arcs x := by
    simp [KeepsLengths, Arc.bare]
  rwa [← hbare flow, h, hbare base]

variable [BEq κ]

-- The placement that puts one vertex at one and all others at zero shows what a flow leaves at the vertex.
theorem IsFlow.total_atVertex (h : IsFlow base flow) (v : κ) :
    total (fun a => a.flow * atVertex v a) flow = total (fun a => a.cost * atVertex v a) base := by
  have := h.meets fun w => if w == v then 1 else 0
  rwa [totalCost_eq] at this

variable [LawfulBEq κ]

omit [LinearOrder R] in
theorem IsFlow.sum_flow_mul (h : IsFlow base flow) (x : κ → R) :
    (flow.map fun a => (a.flow : R) * (x a.head - x a.tail)).sum = placementCost base x := by
  have hzero (v : κ) : total (fun a => ((a.flow : Int) - a.cost) * atVertex v a) flow = 0 := by
    rw [total_flow_sub_cost, sent, h.total_atVertex, total_eq_of_bare h.bare fun _ => rfl, sub_self]
  calc (flow.map fun a => (a.flow : R) * (x a.head - x a.tail)).sum
    _ = (flow.map fun a => (((a.flow : Int) - a.cost : Int) : R) * (x a.head - x a.tail) +
          (a.cost : R) * (x a.head - x a.tail)).sum := by
        refine congrArg List.sum (List.map_congr_left fun a _ => ?_)
        push_cast
        ring
    _ = placementCost flow x := by rw [List.sum_map_add, sum_across_eq_zero hzero, zero_add, placementCost]
    _ = placementCost base x := placementCost_of_bare h.bare x

variable [IsStrictOrderedRing R]

-- Weak duality and complementary slackness.
theorem IsFlow.sentLength_le (h : IsFlow base flow) (hx : KeepsLengths unit base x) :
    sentLength unit flow ≤ placementCost base x := by
  rw [← h.sum_flow_mul]
  refine List.sum_le_sum fun a ha => ?_
  exact mul_le_mul_of_nonneg_left (hx.of_bare h.bare a ha) (Nat.cast_nonneg _)

theorem IsFlow.placementCost_le_iff (h : IsFlow base flow) (hx : KeepsLengths unit base x) :
    placementCost base x ≤ sentLength unit flow ↔
      ∀ a ∈ flow, 0 < a.flow → x a.head - x a.tail = unit * a.length := by
  rw [← h.sum_flow_mul]
  constructor
  case mp =>
    intro hle a ha hpos
    by_contra hn
    refine hle.not_gt (List.sum_lt_sum _ _ (fun b hb => ?_) ⟨a, ha, ?_⟩)
    · exact mul_le_mul_of_nonneg_left (hx.of_bare h.bare b hb) (Nat.cast_nonneg _)
    · exact mul_lt_mul_of_pos_left (lt_of_le_of_ne (hx.of_bare h.bare a ha) (Ne.symm hn)) (Nat.cast_pos.mpr hpos)
  case mpr =>
    intro ht
    refine List.sum_le_sum fun a ha => ?_
    rcases Nat.eq_zero_or_pos a.flow with hz | hpos
    · simp [hz]
    · rw [ht a ha hpos]

-- Over whole numbers.
omit [BEq κ] [LawfulBEq κ] in
theorem keepsLengths_one {x : κ → Int} : KeepsLengths 1 arcs x ↔ Feasible arcs x := by
  simp [KeepsLengths, Feasible]

omit [BEq κ] [LawfulBEq κ] in
theorem placementCost_eq_totalCost {x : κ → Int} : placementCost arcs x = totalCost arcs x :=
  totalCost_eq.symm

omit [BEq κ] [LawfulBEq κ] in
theorem sentLength_one : sentLength (1 : Int) arcs = sent Arc.length arcs := by
  simp [sentLength, sent, total]

theorem IsFlow.totalCost_le_iff {x : κ → Int} (h : IsFlow base flow) (hx : Feasible base x) :
    totalCost base x ≤ sent Arc.length flow ↔ ∀ a ∈ flow, 0 < a.flow → across x a = a.length := by
  have := h.placementCost_le_iff (keepsLengths_one.mpr hx)
  rw [placementCost_eq_totalCost, sentLength_one] at this
  simpa [across] using this

end Slack

section Leftmost

-- The placement of least cost with nothing to the left of zero that has everything furthest to the left. Lengths
-- are counted in hundredths.
structure Leftmost (arcs : List (Arc κ)) (x : κ → Rat) : Prop where
  keeps : KeepsLengths (1 / 100) arcs x
  nonneg : ∀ v, 0 ≤ x v
  least_cost : ∀ y, KeepsLengths (1 / 100) arcs y → placementCost arcs x ≤ placementCost arcs y
  least : ∀ y, KeepsLengths (1 / 100) arcs y → (∀ v, 0 ≤ y v) → placementCost arcs y ≤ placementCost arcs x →
    ∀ v, x v ≤ y v

theorem Leftmost.eq {x y : κ → Rat} (hx : Leftmost arcs x) (hy : Leftmost arcs y) : x = y := by
  funext v
  apply le_antisymm
  case a => exact hx.least y hy.keeps hy.nonneg (hy.least_cost x hx.keeps) v
  case a => exact hy.least x hx.keeps hx.nonneg (hx.least_cost y hy.keeps) v

-- It depends on the network only through the placements that keep its lengths, and their costs.
theorem Leftmost.congr {x : κ → Rat} (hx : Leftmost arcs x)
    (hk : ∀ y : κ → Rat, KeepsLengths (1 / 100) base y ↔ KeepsLengths (1 / 100) arcs y)
    (hc : ∀ y : κ → Rat, placementCost base y = placementCost arcs y) : Leftmost base x where
  keeps := (hk x).mpr hx.keeps
  nonneg := hx.nonneg
  least_cost y hy := by
    rw [hc, hc]
    exact hx.least_cost y ((hk y).mp hy)
  least y hy hn hle := by
    rw [hc, hc] at hle
    exact hx.least y ((hk y).mp hy) hn hle

variable [BEq κ] [Hashable κ] [LawfulBEq κ] {labels : Labels κ}

theorem attained_of_shortest (h : shortest arcs = .ok labels) : Attained (residual arcs) labels :=
  Attained.empty.settle h

theorem holds_of_shortest (h : shortest arcs = .ok labels) : ∀ s ∈ residual arcs, Holds labels s :=
  settled_ok (.of_walk_eq_nil label_empty) h

theorem weight_nonneg_of_shortest (h : shortest arcs = .ok labels) (hr : IsRoute (residual arcs) v v walk) :
    0 ≤ weight walk := by
  have := hr.le_add_weight (x := fun v => (labels.label v).distance) fun s hs => holds_of_shortest h s (hr.subset hs)
  linarith

-- The distance of a vertex is the least weight of a route to it.
theorem isLeast_of_shortest (h : shortest arcs = .ok labels) (v : κ) :
    IsLeast {w | ∃ u walk, IsRoute (residual arcs) u v walk ∧ weight walk = w} (labels.label v).distance := by
  have ha := attained_of_shortest h
  constructor
  case left =>
    obtain ⟨u, hu⟩ := ha.route v
    exact ⟨u, _, hu, ha.weight_eq v⟩
  case right =>
    rintro _ ⟨u, walk, hr, rfl⟩
    have hle := hr.le_add_weight (x := fun v => (labels.label v).distance) fun s hs =>
      holds_of_shortest h s (hr.subset hs)
    have := ha.nonpos u
    linarith

-- A placement without slack along the flow keeps all steps of the residual graph, in whole hundredths too.
theorem le_of_shortest {y : κ → Rat} (h : shortest flow = .ok labels) (hy : KeepsLengths (1 / 100) flow y)
    (hn : ∀ v, 0 ≤ y v) (ht : ∀ a ∈ flow, 0 < a.flow → y a.head - y a.tail = 1 / 100 * a.length) (v : κ) :
    (coordinate labels v : Rat) / 100 ≤ y v := by
  have ha := attained_of_shortest h
  obtain ⟨u, hu⟩ := ha.route v
  let potential (v : κ) : Int := ⌈-(100 * y v)⌉
  have hle : potential v ≤ potential u + weight (labels.label v).walk := by
    refine hu.le_add_weight fun s hs => ?_
    obtain ⟨a, hsa, hd⟩ := mem_residual_iff.mp (hu.subset hs)
    have hmem := List.mem_of_getElem? hsa
    rw [← Int.ceil_add_intCast]
    apply Int.ceil_le_ceil
    rcases hd with ⟨_, hsource, htarget, hweight⟩ | ⟨_, hpos, hsource, htarget, hweight⟩
    · have := hy a hmem
      rw [hsource, htarget, hweight]
      push_cast
      linarith
    · have := ht a hmem hpos
      rw [hsource, htarget, hweight]
      linarith
  have hu : potential u ≤ 0 := Int.ceil_le.mpr (by simpa using hn u)
  have hv : potential v ≤ (labels.label v).distance := by
    rw [ha.weight_eq] at hle
    linarith
  have := Int.ceil_le.mp hv
  rw [coordinate]
  push_cast
  linarith

theorem IsFlow.leftmost (h : IsFlow base flow) (hs : shortest flow = .ok labels) :
    Leftmost base fun v => (coordinate labels v : Rat) / 100 := by
  obtain ⟨hf, ht⟩ := coordinate_of_shortest hs
  have keeps : KeepsLengths (1 / 100) base fun v => (coordinate labels v : Rat) / 100 := by
    intro a ha
    have : (a.length : Rat) ≤ (coordinate labels a.head - coordinate labels a.tail : Int) :=
      Int.cast_le.mpr (hf.of_bare h.bare.symm a ha)
    push_cast at this
    linarith
  have slack : placementCost base (fun v => (coordinate labels v : Rat) / 100) ≤ sentLength (1 / 100) flow := by
    refine (h.placementCost_le_iff keeps).mpr fun a ha hpos => ?_
    rw [← ht a ha hpos, across]
    push_cast
    ring
  exact {
    keeps
    nonneg := fun v => by
      have : (0 : Rat) ≤ coordinate labels v :=
        Int.cast_nonneg (neg_nonneg.mpr ((attained_of_shortest hs).nonpos v))
      exact div_nonneg this (by norm_num)
    least_cost := fun y hy => slack.trans (h.sentLength_le hy)
    least := fun y hy hn hle => le_of_shortest hs (hy.of_bare h.bare) hn
      ((h.placementCost_le_iff hy).mp (hle.trans slack))
  }

end Leftmost

section Minimum

variable [BEq κ] [Hashable κ] {labels : Labels κ}

-- A flow over the arcs of a network: what flows into a vertex beyond what flows out of it is what the costs demand.
structure Serves (base flow : List (Arc κ)) : Prop where
  bare : flow.map Arc.bare = base.map Arc.bare
  balance_eq : ∀ v, (balance (fun a => a.flow) flow).getD v 0 = (balance (fun a => a.cost) base).getD v 0

-- An arc weighs its length with the sign changed.
def flowWeight (flow : List (Arc κ)) : Int :=
  total (fun a => a.flow * -a.length) flow

structure IsMinimum (base flow : List (Arc κ)) : Prop extends Serves base flow where
  least : ∀ other, Serves base other → flowWeight flow ≤ flowWeight other

omit [BEq κ] [Hashable κ] in
theorem flowWeight_eq : flowWeight flow = -sent Arc.length flow := by
  simp [flowWeight, sent, total, List.sum_neg, Function.comp_def]

variable [LawfulBEq κ]

theorem serves_iff : Serves base flow ↔ IsFlow base flow := by
  constructor
  case mp =>
    intro h
    refine isFlow_of_total h.bare fun v => ?_
    have := h.balance_eq v
    rw [getD_balance, getD_balance] at this
    rw [total_flow_sub_cost, sent, this, total_eq_of_bare h.bare fun _ => rfl, sub_self]
  case mpr =>
    intro h
    refine ⟨h.bare, fun v => ?_⟩
    rw [getD_balance, getD_balance]
    exact h.total_atVertex v

-- Otherwise sending more along a cycle of negative weight would make the flow lighter.
theorem IsMinimum.exists_shortest (h : IsMinimum base flow)
    (hA : Acyclic (Follows (base.map fun a => (a.tail, a.head)))) : ∃ labels, shortest flow = .ok labels := by
  obtain ⟨hopt, labels, hl⟩ := optimal_spec hA
  have hx := (coordinate_of_shortest hl).left.of_bare (h.bare.trans hopt.bare.symm)
  refine Flow.exists_shortest fun cycle hn => ?_
  obtain ⟨amount, hc⟩ := exists_capacity? hx hn
  obtain ⟨hf, hlt⟩ := (serves_iff.mp h.toServes).push hn hc
  have := h.least _ (serves_iff.mpr hf)
  rw [flowWeight_eq, flowWeight_eq] at this
  linarith

-- No flow sends more than the cost of a placement, and this flow sends as much.
theorem isMinimum_optimal (hA : Acyclic (Follows (base.map fun a => (a.tail, a.head)))) :
    IsMinimum base (optimal base) := by
  obtain ⟨hf, labels, hl⟩ := optimal_spec hA
  obtain ⟨hx, ht⟩ := coordinate_of_shortest hl
  have hx : Feasible base (coordinate labels) := hx.of_bare hf.bare.symm
  have hle : totalCost base (coordinate labels) ≤ sent Arc.length (optimal base) := (hf.totalCost_le_iff hx).mpr ht
  refine ⟨serves_iff.mpr hf, fun other ho => ?_⟩
  have := (serves_iff.mp ho).sent_length_le hx
  rw [flowWeight_eq, flowWeight_eq]
  linarith

end Minimum

section Merged

variable [BEq κ]

-- Adds an arc to a network in which no two arcs have the same ends. If there is one already, it gets as long as the
-- longer of the two and as costly as both.
def addMerged (a : Arc κ) : List (Arc κ) → List (Arc κ)
  | [] => [a]
  | b :: arcs =>
    if b.tail == a.tail && b.head == a.head then
      { b with length := max b.length a.length, cost := b.cost + a.cost } :: arcs
    else b :: addMerged a arcs

def merged : List (Arc κ) → List (Arc κ)
  | [] => []
  | a :: arcs => addMerged a (merged arcs)

def Arc.ends (a : Arc κ) : κ × κ :=
  (a.tail, a.head)

variable [LawfulBEq κ] {e : κ × κ}

theorem mem_ends_addMerged : e ∈ (addMerged a arcs).map Arc.ends ↔ e ∈ arcs.map Arc.ends ∨ e = a.ends := by
  induction arcs
  case nil => simp [addMerged]
  case cons b arcs hi =>
    rw [addMerged]
    split
    case isTrue h =>
      simp only [Bool.and_eq_true, beq_iff_eq] at h
      have hb : b.ends = a.ends := Prod.ext h.left h.right
      simp only [List.map_cons, List.mem_cons, ← hb]
      change e = b.ends ∨ _ ↔ _
      tauto
    case isFalse =>
      rw [List.map_cons, List.mem_cons, hi, List.map_cons, List.mem_cons, or_assoc]

theorem nodup_ends_addMerged (h : (arcs.map Arc.ends).Nodup) : ((addMerged a arcs).map Arc.ends).Nodup := by
  induction arcs
  case nil => simp [addMerged]
  case cons b arcs hi =>
    obtain ⟨hb, hn⟩ := List.nodup_cons.mp h
    rw [addMerged]
    split
    case isTrue => exact h
    case isFalse hne =>
      refine List.nodup_cons.mpr ⟨fun hm => ?_, hi hn⟩
      rcases mem_ends_addMerged.mp hm with hm | he
      · exact hb hm
      · simp only [Arc.ends, Prod.mk.injEq] at he
        simp [he] at hne

variable {R : Type} [CommRing R] [LinearOrder R] [IsStrictOrderedRing R] {unit : R} {x : κ → R}

theorem keepsLengths_addMerged (hu : 0 ≤ unit) :
    KeepsLengths unit (addMerged a arcs) x ↔ KeepsLengths unit (a :: arcs) x := by
  induction arcs
  case nil => rfl
  case cons b arcs hi =>
    rw [addMerged]
    split
    case isTrue h =>
      simp only [Bool.and_eq_true, beq_iff_eq] at h
      simp only [KeepsLengths, List.forall_mem_cons, Int.cast_max, mul_max_of_nonneg _ _ hu, max_le_iff, h.left,
        h.right]
      tauto
    case isFalse =>
      simp only [KeepsLengths, List.forall_mem_cons] at hi ⊢
      rw [hi]
      tauto

omit [LinearOrder R] [IsStrictOrderedRing R] in
theorem placementCost_addMerged : placementCost (addMerged a arcs) x = placementCost (a :: arcs) x := by
  induction arcs
  case nil => rfl
  case cons b arcs hi =>
    rw [addMerged]
    split
    case isTrue h =>
      simp only [Bool.and_eq_true, beq_iff_eq] at h
      simp only [placementCost, List.map_cons, List.sum_cons, Nat.cast_add, h.left, h.right]
      ring
    case isFalse =>
      simp only [placementCost, List.map_cons, List.sum_cons] at hi ⊢
      rw [hi]
      ring

omit [LinearOrder R] [IsStrictOrderedRing R] in
theorem placementCost_merged : placementCost (merged arcs) x = placementCost arcs x := by
  induction arcs
  case nil => rfl
  case cons a arcs hi =>
    rw [merged, placementCost_addMerged]
    simp only [placementCost, List.map_cons, List.sum_cons] at hi ⊢
    rw [hi]

theorem keepsLengths_merged (hu : 0 ≤ unit) : KeepsLengths unit (merged arcs) x ↔ KeepsLengths unit arcs x := by
  induction arcs
  case nil => rfl
  case cons a arcs hi =>
    rw [merged, keepsLengths_addMerged hu]
    simp only [KeepsLengths, List.forall_mem_cons] at hi ⊢
    rw [hi]

theorem mem_ends_merged : e ∈ (merged arcs).map Arc.ends ↔ e ∈ arcs.map Arc.ends := by
  induction arcs
  case nil => rfl
  case cons a arcs hi => rw [merged, mem_ends_addMerged, hi, List.map_cons, List.mem_cons, or_comm]

-- At most one arc between any two vertices.
theorem nodup_ends_merged : ((merged arcs).map Arc.ends).Nodup := by
  induction arcs
  case nil => exact List.nodup_nil
  case cons a arcs hi => exact nodup_ends_addMerged hi

end Merged

section Placed

variable [BEq κ] [Hashable κ]

-- A flow has no closed route of negative weight in its residual graph, and the least weights of routes, which are
-- found, are the placement in hundredths with its sign changed.
structure Places (flow : List (Arc κ)) (x : κ → Rat) : Prop where
  weight_nonneg : ∀ v walk, IsRoute (residual flow) v v walk → 0 ≤ weight walk
  exists_labels : ∃ labels, shortest flow = .ok labels ∧ ∀ v,
    IsLeast {w | ∃ u walk, IsRoute (residual flow) u v walk ∧ weight walk = w} (labels.label v).distance ∧
    x v = -((labels.label v).distance : Rat) / 100

variable [LawfulBEq κ] {x : κ → Rat}

omit [Hashable κ] in
theorem Leftmost.merged (h : Leftmost arcs x) : Leftmost (Flow.merged arcs) x :=
  h.congr (fun _ => keepsLengths_merged (by norm_num)) fun _ => placementCost_merged

omit [Hashable κ] in
theorem acyclic_merged (h : Acyclic (Follows (arcs.map Arc.ends))) : Acyclic (Follows ((merged arcs).map Arc.ends)) :=
  fun v hv => h v (hv.lift id fun _ _ he => mem_ends_merged.mp he)

theorem leftmost_place (hA : Acyclic (Follows (arcs.map Arc.ends))) :
    Leftmost arcs fun v => (coordinate (place arcs) v : Rat) / 100 := by
  obtain ⟨hf, labels, hl⟩ := optimal_spec hA
  simp only [place, hl]
  exact hf.leftmost hl

theorem IsMinimum.places (h : IsMinimum base flow) (hA : Acyclic (Follows (base.map Arc.ends)))
    (hx : Leftmost base x) : Places flow x := by
  obtain ⟨labels, hl⟩ := h.exists_shortest hA
  refine ⟨fun v walk hr => weight_nonneg_of_shortest hl hr, labels, hl, fun v => ⟨isLeast_of_shortest hl v, ?_⟩⟩
  rw [hx.eq ((serves_iff.mp h.toServes).leftmost hl)]
  simp only [coordinate]
  push_cast
  rfl

end Placed

end Flow

namespace Arrangement

open LayeredDiagram.Group

variable {α : Type} [Scalar α] {nodes : List (SizedNode α)} {edges : List (SizedEdge α)} {groups : List Group}

-- In the network of the constraints as in the one with at most one arc between two variables.
theorem ofGraph_minimumFlows (hv : Register.error? nodes edges (forest [] groups) = none) (sweeps : Nat)
    (spacing : Spacing α) :
    let network := (ofGraph sweeps nodes edges spacing (forest [] groups)).arcs spacing (forest [] groups)
    ((Flow.merged network).map Flow.Arc.ends).Nodup ∧ ∃ x, Flow.Leftmost network x ∧
      (∀ v, (Abscissae.ofLabels (Flow.place network) : Abscissae Rat).value v = x v) ∧
      ∀ base, base = network ∨ base = Flow.merged network →
        (∃ flow, Flow.IsMinimum base flow) ∧ ∀ flow, Flow.IsMinimum base flow → Flow.Places flow x := by
  intro network
  obtain ⟨place, h⟩ := exists_arranged (Register.error?_eq_none_iff.mp hv) sweeps spacing
  have hA : Acyclic (Follows (network.map Flow.Arc.ends)) := h.acyclic spacing
  have hx := Flow.leftmost_place hA
  refine ⟨Flow.nodup_ends_merged, _, hx, Abscissae.value_ofLabels _, ?_⟩
  rintro base (rfl | rfl)
  · exact ⟨⟨_, Flow.isMinimum_optimal hA⟩, fun flow hf => hf.places hA hx⟩
  · have hA := Flow.acyclic_merged hA
    exact ⟨⟨_, Flow.isMinimum_optimal hA⟩, fun flow hf => hf.places hA hx.merged⟩

theorem ofGraph_minimumFlows_nestedGroups :
    Register.error? nestedGroups.nodes nestedGroups.edges (forest [] nestedGroups.groups) = none ∧
    ∃ x, ∀ flow, Flow.IsMinimum (Flow.merged ((ofGraph 4 nestedGroups.nodes nestedGroups.edges nestedGroups.spacing
      (forest [] nestedGroups.groups)).arcs nestedGroups.spacing (forest [] nestedGroups.groups))) flow →
      Flow.Places flow x := by
  have hv : Register.error? nestedGroups.nodes nestedGroups.edges (forest [] nestedGroups.groups) = none := by
    decide
  obtain ⟨_, x, _, _, h⟩ := ofGraph_minimumFlows hv 4 nestedGroups.spacing
  exact ⟨hv, x, (h _ (.inr rfl)).right⟩

end Arrangement

end LayeredDiagram
