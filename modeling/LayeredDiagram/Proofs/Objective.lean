import LayeredDiagram.Proofs.Medians
/-!
What balancing does to the cost of a placement. The placement makes the distances between the ends of segments, at
their costs, and the widths of groups least. Balancing moves nodes towards the median of their neighbours by weight.
This never makes the distances by weight longer. It keeps the least cost if segments that meet at a node cost the same
per unit of weight, as they do unless some of them end at bends and others do not.
-/

namespace LayeredDiagram

namespace Constraint

variable {spacing : Spacing Rat} {entries : List Group.Entry} {segments : List (Segment Rat)} {layers : Layers Rat}
variable {layer : List (Item Rat)} {e : Group.Entry} {c : Constraint Rat}

section Costs

variable {s : Segment Rat} {n : Nat}

-- How many ends of a segment are bends.
def bends (s : Segment Rat) : Nat :=
  s.upper.isBend.toNat + s.lower.isBend.toNat

def factor (s : Segment Rat) : Nat :=
  match bends s with
  | 0 => 1
  | 1 => 2
  | _ => 8

theorem factor_pos : 0 < factor s := by
  unfold factor
  split <;> decide

theorem bends_le_two : bends s ≤ 2 :=
  Nat.add_le_add (Bool.toNat_le _) (Bool.toNat_le _)

theorem factor_eq_iff {t : Segment Rat} : factor s = factor t ↔ bends s = bends t := by
  have hs := bends_le_two (s := s)
  have ht := bends_le_two (s := t)
  unfold factor
  generalize bends s = m at hs ⊢
  generalize bends t = n at ht ⊢
  obtain rfl | rfl | rfl : m = 0 ∨ m = 1 ∨ m = 2 := by omega
  all_goals obtain rfl | rfl | rfl : n = 0 ∨ n = 1 ∨ n = 2 := by omega
  all_goals simp

-- The unit of costs is an eighth of the unit of weights.
theorem segmentCost_of_eighths (hn : 0 < n) (h : s.weight = n / 8) : segmentCost s = factor s * n := by
  have himportance : importance s = ((factor s * n : Nat) : Int) := by
    have : importance s = factor s * s.weight * 8 := rfl
    rw [this, h]
    push_cast
    ring
  rw [segmentCost, himportance, Scalar.nearest_intCast, Int.toNat_natCast]
  exact max_eq_right (Nat.mul_pos factor_pos hn)

end Costs

-- A gap that costs nothing, between what is no helper.
structure Plain (c : Constraint Rat) : Prop where
  cost_eq : c.cost = 0
  tail_ne : ∀ k, c.tail ≠ .helper k
  head_ne : ∀ k, c.head ≠ .helper k

theorem plain_require {tail head : Variable} (ht : ∀ k, tail ≠ .helper k) (hh : ∀ k, head ≠ .helper k) (gap : Rat) :
    (require tail head gap).Plain :=
  ⟨rfl, ht, hh⟩

theorem plain_between (spacing : Spacing Rat) (left right : Item Rat) : (between spacing left right).Plain := by
  refine plain_require (fun k => ?tail) (fun k => ?head) _
  case tail => cases bounding? _ left <;> simp
  case head => cases bounding? _ right <;> simp

theorem plain_of_mem_inside {i : Item Rat} (hc : c ∈ inside spacing i) : c.Plain := by
  unfold inside at hc
  split at hc
  case h_1 =>
    simp only [List.mem_cons, List.not_mem_nil, or_false] at hc
    rcases hc with rfl | rfl <;> exact plain_require (by simp) (by simp) _
  case h_2 => cases hc

theorem plain_of_mem_ofLayer (hc : c ∈ ofLayer spacing layer) : c.Plain := by
  rcases List.mem_append.mp hc with hc | hc
  · obtain ⟨⟨left, right⟩, _, rfl⟩ := List.mem_map.mp hc
    exact plain_between spacing left right
  · obtain ⟨i, _, hc⟩ := List.mem_flatMap.mp hc
    exact plain_of_mem_inside hc

theorem plain_of_mem_nested (hc : c ∈ nested spacing e) : c.Plain := by
  unfold nested at hc
  split at hc
  case h_1 =>
    simp only [List.mem_cons, List.not_mem_nil, or_false] at hc
    rcases hc with rfl | rfl <;> exact plain_require (by simp) (by simp) _
  case h_2 => cases hc

-- The constraints of segments are the only ones of helpers.
theorem mem_all_cases (hc : c ∈ all spacing entries segments layers) :
    (∃ s k, segments[k]? = some s ∧ c ∈ aligned k s) ∨ ((∀ k, c.tail ≠ .helper k) ∧ ∀ k, c.head ≠ .helper k) := by
  simp only [all, List.mem_append, List.mem_flatMap, List.mem_map, Prod.exists, List.mem_zipIdx_iff_getElem?] at hc
  rcases hc with ((⟨layer, _, hc⟩ | ⟨e, _, hc⟩) | hc) | ⟨e, _, rfl⟩
  · exact .inr ⟨(plain_of_mem_ofLayer hc).tail_ne, (plain_of_mem_ofLayer hc).head_ne⟩
  · exact .inr ⟨(plain_of_mem_nested hc).tail_ne, (plain_of_mem_nested hc).head_ne⟩
  · exact .inl hc
  · exact .inr ⟨by simp [compact], by simp [compact]⟩

end Constraint

namespace Abscissae

variable {arcs : List (Flow.Arc Variable)} {segments : List (Segment Rat)} {entries : List Group.Entry}
variable {spacing : Spacing Rat} {layers : Layers Rat} {x y : Abscissae Rat} {i : Item Rat} {items : List (Item Rat)}
variable {weigh : Segment Rat → Rat} {k m : Rat} {s : Segment Rat}

-- The distances between the ends of all segments, weighed in some way.
def extent (weigh : Segment Rat → Rat) (segments : List (Segment Rat)) (x : Abscissae Rat) : Rat :=
  (segments.map fun s => weigh s * |x.value (.item s.upper.slot) - x.value (.item s.lower.slot)|).sum

def groupWidths (entries : List Group.Entry) (x : Abscissae Rat) : Rat :=
  (entries.map fun e => x.value (.right e.id) - x.value (.left e.id)).sum

-- What the placement makes least.
def objective (entries : List Group.Entry) (segments : List (Segment Rat)) (x : Abscissae Rat) : Rat :=
  extent (fun s => Constraint.segmentCost s) segments x + groupWidths entries x

-- An item is at one of the ends of a segment.
def Meets (i : Item Rat) (s : Segment Rat) : Prop :=
  s.upper.slot = i.slot ∨ s.lower.slot = i.slot

instance : Decidable (Meets i s) :=
  inferInstanceAs (Decidable (_ ∨ _))

section Moves

-- The places and weights of all neighbours.
def surroundings (segments : List (Segment Rat)) (x : Abscissae Rat) (i : Item Rat) : List (Rat × Rat) :=
  (neighbours segments i).map fun (slot, weight) => (x.value (.item slot), weight)

theorem distance_surroundings (t : Rat) : distance (surroundings segments x i) t =
    (segments.map fun s => (if s.lower.slot = i.slot then s.weight * |t - x.value (.item s.upper.slot)| else 0) +
      if s.upper.slot = i.slot then s.weight * |t - x.value (.item s.lower.slot)| else 0).sum := by
  rw [List.sum_map_add, List.sum_map_ite, List.sum_map_ite]
  simp [distance, surroundings, neighbours, Layers.above, Layers.below, Function.comp_def]

-- The lengths of the segments at an item change with its distance from their other ends, and no other length does.
theorem extent_insert (hne : ∀ s ∈ segments, s.upper.slot ≠ s.lower.slot)
    (hk : ∀ s ∈ segments, Meets i s → weigh s = k * s.weight) : extent weigh segments (x.insert (.item i.slot) m) =
      extent weigh segments x + k * (distance (surroundings segments x i) m -
        distance (surroundings segments x i) (x.value (.item i.slot))) := by
  have hswap (c d : Rat) : extent weigh segments x + k * (c - d) = extent weigh segments x + k * c + -k * d := by ring
  rw [hswap, distance_surroundings, distance_surroundings, extent, extent, ← List.sum_map_mul_left,
    ← List.sum_map_mul_left, ← List.sum_map_add, ← List.sum_map_add]
  refine congrArg List.sum (List.map_congr_left fun s hs => ?_)
  have hne := hne s hs
  have hk := hk s hs
  simp only [value_insert, beq_iff_eq, Variable.item.injEq, Meets] at hk ⊢
  by_cases hupper : s.upper.slot = i.slot <;> by_cases hlower : s.lower.slot = i.slot
  · exact absurd (hupper.trans hlower.symm) hne
  · simp only [hupper, hlower, Ne.symm hlower, hk (.inl hupper), if_true, if_false]
    ring
  · simp only [hupper, hlower, Ne.symm hupper, hk (.inr hlower), if_true, if_false,
      abs_sub_comm (x.value (.item s.upper.slot))]
    ring
  · simp only [hupper, hlower, Ne.symm hupper, Ne.symm hlower, if_false]
    ring

-- What the segments at an item weigh is in proportion to their weights.
def Proportional (weigh : Segment Rat → Rat) (segments : List (Segment Rat)) (i : Item Rat) : Prop :=
  ∃ k, 0 ≤ k ∧ ∀ s ∈ segments, Meets i s → weigh s = k * s.weight

-- Segments between different items with weights that can be told apart.
structure Weighed (segments : List (Segment Rat)) : Prop where
  slot_ne : ∀ s ∈ segments, s.upper.slot ≠ s.lower.slot
  pos : ∀ s ∈ segments, 0 < s.weight
  decimals : ∀ s ∈ segments, HasDecimals 8 s.weight

theorem exists_weight_of_mem_surroundings {p : Rat × Rat} (hp : p ∈ surroundings segments x i) :
    ∃ s ∈ segments, s.weight = p.2 := by
  obtain ⟨n, hn, rfl⟩ := List.mem_map.mp hp
  rcases List.mem_append.mp hn with hn | hn
  all_goals
    obtain ⟨s, hs, rfl⟩ := List.mem_map.mp hn
    exact ⟨s, (List.mem_filter.mp hs).left, rfl⟩

-- One node moves towards the middle of its neighbours.
theorem extent_balanceNode_le (hk : Keeps arcs x) (hs : Weighed segments) (hp : Proportional weigh segments i) :
    extent weigh segments (balanceNode arcs segments x i) ≤ extent weigh segments x := by
  by_cases hn : neighbours segments i = []
  case pos => rw [balanceNode_of_neighbours_eq_nil hn]
  case neg =>
    obtain ⟨k, hnonneg, hp⟩ := hp
    obtain ⟨m, hm, _, heq⟩ := hk.exists_balanceNode_eq hn
    have hpos : ∀ p ∈ surroundings segments x i, 0 < p.2 := by
      intro p hp
      obtain ⟨s, hmem, hw⟩ := exists_weight_of_mem_surroundings hp
      exact hw ▸ hs.pos s hmem
    have hdecimals : ∀ p ∈ surroundings segments x i, HasDecimals 8 p.2 := by
      intro p hp
      obtain ⟨s, hmem, hw⟩ := exists_weight_of_mem_surroundings hp
      exact hw ▸ hs.decimals s hmem
    obtain ⟨lower, upper, hmedians, hmiddle⟩ := exists_medians (by simpa [surroundings] using hn) hpos hdecimals
    have hmiddle : middle segments x i ∈ Set.Icc lower upper := by
      have hle := hmedians.le
      have : middle segments x i = (lower + upper) / 2 := hmiddle
      rw [this]
      constructor <;> linarith
    have hle := hmedians.distance_le hpos hmiddle hm
    rw [heq, extent_insert hs.slot_ne hp]
    have := mul_nonneg hnonneg (sub_nonneg.mpr hle)
    linarith

-- By induction on the nodes. Each of them moves from coordinates that keep all gaps.
theorem extent_foldl_le (hk : Keeps arcs x) (hs : Weighed segments) (hp : ∀ i ∈ items, Proportional weigh segments i) :
    extent weigh segments (items.foldl (balanceNode arcs segments) x) ≤ extent weigh segments x := by
  induction items generalizing x
  case nil => exact le_rfl
  case cons i items hi =>
    obtain ⟨hi', hp⟩ := List.forall_mem_cons.mp hp
    exact (hi (hk.balanceNode segments i) hp).trans (extent_balanceNode_le hk hs hi')

theorem groupWidths_balance : groupWidths entries (balance arcs segments layers x) = groupWidths entries x := by
  refine congrArg List.sum (List.map_congr_left fun e _ => ?_)
  rw [balance, value_foldl_balanceNode (by simp), value_foldl_balanceNode (by simp)]

end Moves

section Costs

open Constraint

-- The network of all gaps.
abbrev network (spacing : Spacing Rat) (entries : List Group.Entry) (segments : List (Segment Rat))
    (layers : Layers Rat) : List (Flow.Arc Variable) :=
  (Constraint.all spacing entries segments layers).map Constraint.toArc

-- Only the alignment of segments and the widths of groups have a cost.
theorem placementCost_network (z : Variable → Rat) : Flow.placementCost (network spacing entries segments layers) z =
    (segments.zipIdx.map fun (s, index) => (segmentCost s : Rat) * ((z (.item s.upper.slot) - z (.helper index)) +
      (z (.item s.lower.slot) - z (.helper index)))).sum +
    (entries.map fun e => z (.right e.id) - z (.left e.id)).sum := by
  have hplain {β : Type} (l : List β) (f : β → List (Constraint Rat)) (h : ∀ b ∈ l, ∀ c ∈ f b, c.Plain) :
      Flow.placementCost ((l.flatMap f).map toArc) z = 0 := by
    refine List.sum_eq_zero fun q hq => ?_
    obtain ⟨_, ha, rfl⟩ := List.mem_map.mp hq
    obtain ⟨c, hc, rfl⟩ := List.mem_map.mp ha
    obtain ⟨b, hb, hc⟩ := List.mem_flatMap.mp hc
    simp [toArc, (h b hb c hc).cost_eq]
  have happend (arcs arcs' : List (Flow.Arc Variable)) :
      Flow.placementCost (arcs ++ arcs') z = Flow.placementCost arcs z + Flow.placementCost arcs' z := by
    simp [Flow.placementCost]
  have haligned : Flow.placementCost ((segments.zipIdx.flatMap fun (s, index) => aligned index s).map toArc) z =
      (segments.zipIdx.map fun (s, index) => (segmentCost s : Rat) * ((z (.item s.upper.slot) - z (.helper index)) +
        (z (.item s.lower.slot) - z (.helper index)))).sum := by
    induction segments.zipIdx
    case nil => rfl
    case cons p rest hi =>
      rw [List.flatMap_cons, List.map_append, happend, hi, List.map_cons, List.sum_cons]
      simp [Flow.placementCost, aligned, toArc, mul_add]
  have hcompact : Flow.placementCost ((entries.map fun e => (compact e : Constraint Rat)).map toArc) z =
      (entries.map fun e => z (.right e.id) - z (.left e.id)).sum := by
    simp [Flow.placementCost, Function.comp_def, compact, toArc]
  rw [network, Constraint.all, List.map_append, List.map_append, List.map_append, happend, happend, happend, haligned,
    hcompact, hplain layers _ fun _ _ _ => plain_of_mem_ofLayer, hplain entries _ fun _ _ _ => plain_of_mem_nested,
    zero_add, zero_add]

-- Helpers at the end of their segment that is further to the left.
def withHelpers (segments : List (Segment Rat)) (x : Abscissae Rat) : Variable → Rat
  | .helper index => (segments[index]?).elim 0 fun s => min (x.value (.item s.upper.slot)) (x.value (.item s.lower.slot))
  | v => x.value v

theorem withHelpers_of_ne {v : Variable} (h : ∀ index, v ≠ .helper index) : withHelpers segments x v = x.value v := by
  cases v
  case helper index => exact absurd rfl (h index)
  all_goals rfl

theorem extent_eq_zipIdx : extent weigh segments x = (segments.zipIdx.map fun (s, _) =>
    weigh s * |x.value (.item s.upper.slot) - x.value (.item s.lower.slot)|).sum := by
  conv_lhs => rw [extent, ← List.zipIdx_map_fst 0 segments, List.map_map]
  rfl

theorem placementCost_withHelpers : Flow.placementCost (network spacing entries segments layers)
    (withHelpers segments x) = objective entries segments x := by
  rw [placementCost_network, objective, extent_eq_zipIdx, groupWidths]
  refine congrArg₂ (· + ·) (congrArg List.sum (List.map_congr_left fun p hp => ?_)) rfl
  obtain ⟨s, index⟩ := p
  have hs : segments[index]? = some s := List.mem_zipIdx_iff_getElem?.mp hp
  simp only [withHelpers, hs, Option.elim_some]
  congr 1
  rcases le_total (x.value (.item s.upper.slot)) (x.value (.item s.lower.slot)) with h | h
  · rw [min_eq_left h, abs_of_nonpos (by linarith)]
    ring
  · rw [min_eq_right h, abs_of_nonneg (by linarith)]
    ring

-- Wherever the helpers are.
theorem objective_le_placementCost (h : Flow.KeepsLengths (1 / 100) (network spacing entries segments layers) x.value) :
    objective entries segments x ≤ Flow.placementCost (network spacing entries segments layers) x.value := by
  rw [placementCost_network, objective, extent_eq_zipIdx, groupWidths]
  refine add_le_add (List.sum_le_sum fun p hp => ?_) le_rfl
  obtain ⟨s, index⟩ := p
  refine mul_le_mul_of_nonneg_left ?_ (Nat.cast_nonneg _)
  have hmem {c : Constraint Rat} (hc : c ∈ aligned index s) : c.toArc ∈ network spacing entries segments layers := by
    refine List.mem_map_of_mem ?_
    simp only [Constraint.all, List.mem_append, List.mem_flatMap]
    exact .inl (.inr ⟨(s, index), hp, hc⟩)
  have hupper := h _ (hmem (c := ⟨.helper index, .item s.upper.slot, 0, segmentCost s⟩) List.mem_cons_self)
  have hlower := h _ (hmem (c := ⟨.helper index, .item s.lower.slot, 0, segmentCost s⟩)
    (List.mem_cons_of_mem _ List.mem_cons_self))
  simp only [toArc, scaled_zero, Int.cast_zero, mul_zero] at hupper hlower
  refine abs_le.mpr ⟨?_, ?_⟩ <;> linarith

theorem Keeps.withHelpers (h : Keeps (network spacing entries segments layers) x) :
    Flow.KeepsLengths (1 / 100) (network spacing entries segments layers) (Abscissae.withHelpers segments x) := by
  intro b hb
  obtain ⟨c, hc, rfl⟩ := List.mem_map.mp hb
  rcases mem_all_cases hc with ⟨s, k, hs, hc⟩ | ⟨htail, hhead⟩
  · simp only [aligned, List.mem_cons, List.not_mem_nil, or_false] at hc
    rcases hc with rfl | rfl <;> simp [toArc, Abscissae.withHelpers, hs, scaled_zero]
  · have := h _ hb htail
    rw [withHelpers_of_ne (v := c.toArc.tail) htail, withHelpers_of_ne (v := c.toArc.head) hhead]
    linarith

-- No coordinates that keep all gaps cost less than those of the placement.
theorem objective_place_le (hA : Acyclic (Follows ((network spacing entries segments layers).map Flow.Arc.ends)))
    (hy : Keeps (network spacing entries segments layers) y) :
    objective entries segments (ofLabels (Flow.place (network spacing entries segments layers))) ≤
      objective entries segments y := by
  have hplace := Flow.leftmost_place hA
  have hvalue : (ofLabels (Flow.place (network spacing entries segments layers))).value = fun v =>
      (Flow.coordinate (Flow.place (network spacing entries segments layers)) v : Rat) / 100 :=
    funext (value_ofLabels _)
  calc objective entries segments (ofLabels (Flow.place (network spacing entries segments layers)))
    _ ≤ Flow.placementCost (network spacing entries segments layers)
          (ofLabels (Flow.place (network spacing entries segments layers))).value :=
        objective_le_placementCost (hvalue ▸ hplace.keeps)
    _ ≤ Flow.placementCost (network spacing entries segments layers) (Abscissae.withHelpers segments y) :=
        hvalue ▸ hplace.least_cost _ hy.withHelpers
    _ = objective entries segments y := placementCost_withHelpers

end Costs

end Abscissae

theorem Arranged.slot_ne {entries : List Group.Entry} {place : String → Nat} {a : Arrangement Rat} {s : Segment Rat}
    (h : Arranged entries place a) (hs : s ∈ a.stock.segments) : s.upper.slot ≠ s.lower.slot := by
  obtain ⟨hu, hl, hr⟩ := h.segments s hs
  intro he
  have := List.inj_on_of_nodup_map h.slot_nodup hu hl he
  rw [this] at hr
  omega

namespace Arrangement

open LayeredDiagram.Group Abscissae Constraint

variable {nodes : List (SizedNode Rat)} {edges : List (SizedEdge Rat)} {groups : List Group} {entries : List Entry}
variable {spacing : Spacing Rat} {a : Arrangement Rat} {place : String → Nat} {s : Segment Rat} {i : Item Rat}

-- Segments that meet at a node cost the same per unit of weight.
def Even (a : Arrangement Rat) : Prop :=
  ∀ i ∈ a.stock.items, i.kind = .node → ∀ s ∈ a.stock.segments, ∀ t ∈ a.stock.segments, Meets i s → Meets i t →
    segmentCost s * t.weight = segmentCost t * s.weight

instance : Decidable a.Even :=
  inferInstanceAs (Decidable (∀ i ∈ a.stock.items, i.kind = .node → ∀ s ∈ a.stock.segments, ∀ t ∈ a.stock.segments, _))

-- For weights in eighths, unless some of the segments at a node end at bends and others do not.
theorem even_iff (hw : ∀ s ∈ a.stock.segments, ∃ n : Nat, 0 < n ∧ s.weight = n / 8) : a.Even ↔
    ∀ i ∈ a.stock.items, i.kind = .node → ∀ s ∈ a.stock.segments, ∀ t ∈ a.stock.segments, Meets i s → Meets i t →
      bends s = bends t := by
  refine forall₂_congr fun i _ => forall_congr' fun _ => forall₂_congr fun s hs => forall₂_congr fun t ht => ?_
  refine forall₂_congr fun _ _ => ?_
  obtain ⟨n, hn, hsw⟩ := hw s hs
  obtain ⟨m, hm, htw⟩ := hw t ht
  have hn' : (n : Rat) ≠ 0 := Nat.cast_ne_zero.mpr hn.ne'
  have hm' : (m : Rat) ≠ 0 := Nat.cast_ne_zero.mpr hm.ne'
  rw [segmentCost_of_eighths hn hsw, segmentCost_of_eighths hm htw, hsw, htw, ← factor_eq_iff]
  push_cast
  constructor
  case mp =>
    intro h
    have : (factor s : Rat) * (n * m / 8) = factor t * (n * m / 8) := by linarith
    exact_mod_cast mul_right_cancel₀ (by positivity) this
  case mpr =>
    intro h
    rw [h]
    ring

theorem Even.proportional (h : a.Even) (hs : Weighed a.stock.segments) (hi : i ∈ a.stock.items) (hk : i.kind = .node) :
    Proportional (fun s => segmentCost s) a.stock.segments i := by
  by_cases hmeets : ∃ s ∈ a.stock.segments, Meets i s
  case pos =>
    obtain ⟨s, hsm, hsi⟩ := hmeets
    have hpos := hs.pos s hsm
    refine ⟨segmentCost s / s.weight, div_nonneg (Nat.cast_nonneg _) hpos.le, fun t htm hti => ?_⟩
    rw [div_mul_eq_mul_div, eq_div_iff hpos.ne', h i hi hk s hsm t htm hsi hti]
  case neg => exact ⟨0, le_rfl, fun s hsm hsi => absurd ⟨s, hsm, hsi⟩ hmeets⟩

theorem exists_edge_of_mem_segments (hs : s ∈ (Stock.ofNodes nodes edges spacing entries).segments) :
    ∃ e ∈ edges, e.kind = .real ∧ s.weight = e.weight := by
  obtain ⟨c, hc, hs⟩ := List.mem_flatMap.mp hs
  obtain ⟨o, ho, hk, e, _, _, h⟩ := Chain.exists_connects_of_mem hc
  have hof := OrientedEdge.orientationOf_of_mem_all ho h.edge_eq
  obtain ⟨p, _, rfl⟩ := List.mem_map.mp hs
  exact ⟨e, List.mem_of_getElem? h.edge_eq, hof.kind ▸ hk, by rw [h.eq]⟩

-- The placement is optimal. Balancing keeps all gaps and bounds of groups and makes no distance by weight longer, and
-- if the segments at a node cost the same per unit of weight, then the optimum stays.
theorem ofGraph_objective (hv : Register.error? nodes edges (forest [] groups) = none)
    (hw : ∀ e ∈ edges, e.kind = .real → 0 < e.weight ∧ HasDecimals 8 e.weight) (sweeps : Nat) (spacing : Spacing Rat) :
    let entries := forest [] groups
    let a := ofGraph sweeps nodes edges spacing entries
    let placed : Abscissae Rat := ofLabels (Flow.place (a.arcs spacing entries))
    let balanced := ofLayers spacing entries a.stock.segments a.layers
    (Keeps (a.arcs spacing entries) placed ∧ ∀ y, Keeps (a.arcs spacing entries) y →
      objective entries a.stock.segments placed ≤ objective entries a.stock.segments y) ∧
    (Keeps (a.arcs spacing entries) balanced ∧ groupWidths entries balanced = groupWidths entries placed ∧
      extent (·.weight) a.stock.segments balanced ≤ extent (·.weight) a.stock.segments placed) ∧
    (a.Even → objective entries a.stock.segments balanced = objective entries a.stock.segments placed) := by
  intro entries a placed balanced
  obtain ⟨place, h⟩ := exists_arranged (Register.error?_eq_none_iff.mp hv) sweeps spacing
  have hA : Acyclic (Follows ((a.arcs spacing entries).map Flow.Arc.ends)) := h.acyclic spacing
  have hplaced : Keeps (a.arcs spacing entries) placed := keeps_place hA
  have hbalanced : Keeps (a.arcs spacing entries) balanced := hplaced.balance a.stock.segments a.layers
  have hs : Weighed a.stock.segments := by
    refine ⟨fun s hs => h.slot_ne hs, fun s hs => ?_, fun s hs => ?_⟩
    all_goals obtain ⟨e, he, hk, heq⟩ := exists_edge_of_mem_segments hs
    · exact heq ▸ (hw e he hk).left
    · exact heq ▸ (hw e he hk).right
  have hleast (y : Abscissae Rat) (hy : Keeps (a.arcs spacing entries) y) :
      objective entries a.stock.segments placed ≤ objective entries a.stock.segments y :=
    objective_place_le hA hy
  have hwidths : groupWidths entries balanced = groupWidths entries placed := groupWidths_balance
  have hweight (i : Item Rat) : Proportional (·.weight) a.stock.segments i :=
    ⟨1, zero_le_one, fun s _ _ => (one_mul _).symm⟩
  refine ⟨⟨hplaced, hleast⟩, ⟨hbalanced, hwidths, extent_foldl_le hplaced hs fun i _ => hweight i⟩, fun he => ?_⟩
  apply le_antisymm
  case a =>
    have hitems : ∀ i ∈ a.layers.flatten.filter (·.kind = .node),
        Proportional (fun s => segmentCost s) a.stock.segments i := by
      intro i hi
      obtain ⟨hi, hk⟩ := List.mem_filter.mp hi
      obtain ⟨layer, hl, hi⟩ := List.mem_flatten.mp hi
      exact he.proportional hs (h.mem_items hl hi) (by simpa using hk)
    rw [objective, objective, hwidths]
    exact add_le_add_left (extent_foldl_le hplaced hs hitems) _
  case a => exact hleast balanced hbalanced

-- Two nodes side by side above a third one.
def meeting : SizedGraph Rat where
  nodes := [{ id := "a", width := 40, height := 20 }, { id := "b", width := 40, height := 20 },
    { id := "c", width := 40, height := 20 }]
  edges := [.plain "a" "c" .real, .plain "b" "c" .real]
  groups := []
  spacing := .standard
  margin := ⟨40, 40⟩

theorem ofGraph_objective_meeting : Register.error? meeting.nodes meeting.edges (forest [] meeting.groups) = none ∧
    (∀ e ∈ meeting.edges, e.kind = .real → 0 < e.weight ∧ HasDecimals 8 e.weight) ∧
    let a := ofGraph 4 meeting.nodes meeting.edges meeting.spacing []
    a.Even ∧ objective [] a.stock.segments (ofLayers meeting.spacing [] a.stock.segments a.layers) =
      objective [] a.stock.segments (ofLabels (Flow.place (a.arcs meeting.spacing []))) := by
  have hv : Register.error? meeting.nodes meeting.edges (forest [] meeting.groups) = none := by decide
  have hw : ∀ e ∈ meeting.edges, e.kind = .real → 0 < e.weight ∧ HasDecimals 8 e.weight := by
    have hone : ∀ e ∈ meeting.edges, e.weight = (1 : Nat) := by decide
    intro e he _
    rw [hone e he]
    exact ⟨by norm_num, .natCast 8 1⟩
  have he : (ofGraph 4 meeting.nodes meeting.edges meeting.spacing []).Even := by decide +kernel
  exact ⟨hv, hw, he, (ofGraph_objective hv hw 4 meeting.spacing).right.right he⟩

end Arrangement

namespace Triangle

open LayeredDiagram.Group Abscissae

-- An edge that runs beside the node on the way from its source to its target.
def graph : SizedGraph Rat where
  nodes := [{ id := "v", width := 40, height := 20 }, { id := "a", width := 40, height := 20 },
    { id := "t", width := 40, height := 20 }]
  edges := [.plain "v" "a" .real, .plain "a" "t" .real, .plain "v" "t" .real]
  groups := []
  spacing := .standard
  margin := ⟨40, 40⟩

section Items

def nodeItem (id : String) (rank : Nat) : Item Rat :=
  ⟨.node id, rank, 40, 20, .node, [], 0⟩

def v : Item Rat :=
  nodeItem "v" 0

def a : Item Rat :=
  nodeItem "a" 1

def t : Item Rat :=
  nodeItem "t" 2

def d : Item Rat :=
  ⟨.bend 2 1, 1, 0, 0, .dummy, [], 0⟩

def stock : Stock Rat where
  entries := []
  items := [v, a, t, d]
  chains := [⟨0, 1, [v, a], false⟩, ⟨1, 1, [a, t], false⟩, ⟨2, 1, [v, d, t], false⟩]
  loops := []

theorem stock_eq : Stock.ofNodes graph.nodes graph.edges graph.spacing [] = stock := by
  decide +kernel

abbrev arrangement : Arrangement Rat :=
  .ofGraph 4 graph.nodes graph.edges graph.spacing []

theorem layers_eq : arrangement.layers = [[v], [a, d], [t]] := by
  have hlayers : Layers.ofStock 4 stock = stock.layers :=
    Layers.ofStock_of_crossings_eq_zero (by decide +kernel) (fun _ _ _ => rfl) 4
  exact (congrArg (Layers.ofStock 4) stock_eq).trans (hlayers.trans (by decide +kernel))

end Items

section Arcs

def arcs : List (Flow.Arc Variable) :=
  network graph.spacing [] stock.segments [[v], [a, d], [t]]

theorem arcs_eq : arrangement.arcs graph.spacing [] = arcs := by
  have hstock : arrangement.stock = stock := stock_eq
  rw [Arrangement.arcs, layers_eq, hstock]
  rfl

-- A placement of least cost, in hundredths.
def position : Variable → Int
  | .item (.node "a") => 0
  | .helper 0 => 0
  | .helper 1 => 0
  | _ => 3000

-- What is sent over each arc.
def amount (b : Flow.Arc Variable) : Nat :=
  match b.tail, b.head with
  | .item _, _ => 16
  | .helper 0, .item (.node "a") => 16
  | .helper 1, .item (.node "a") => 16
  | .helper 2, .item (.node _) => 24
  | .helper 3, .item (.node _) => 24
  | .helper 2, _ => 8
  | .helper 3, _ => 8
  | _, _ => 0

def tied : List Variable :=
  [.item v.slot, .helper 2, .item d.slot, .helper 3, .item t.slot, .helper 3, .item d.slot, .item a.slot]

theorem flow_spec : (∀ b ∈ arcs, ∀ v ∈ [b.tail, b.head],
      Flow.total (fun b => ((amount b : Int) - b.cost) * Flow.atVertex v b) arcs = 0) ∧
    (∀ b ∈ arcs, b.length ≤ position b.head - position b.tail) ∧
    (∀ b ∈ arcs, 0 < amount b → position b.head - position b.tail = b.length) ∧
    tied.IsChain (Flow.Tied arcs amount) := by
  decide +kernel

-- Only the node beside the bend is held.
theorem moves_spec :
    (Free arcs (.item v.slot) ∧ neighbours stock.segments v = [(a.slot, 1), (d.slot, 1)]) ∧
    ((∃ b ∈ arcs, b.tail = .item a.slot ∧ b.head = .item d.slot ∧ b.length = 3000) ∧
      neighbours stock.segments a = [(v.slot, 1), (t.slot, 1)]) ∧
    (Free arcs (.item t.slot) ∧ neighbours stock.segments t = [(a.slot, 1), (d.slot, 1)]) := by
  decide +kernel

end Arcs

section Moves

abbrev placed : Abscissae Rat :=
  ofLabels (Flow.place arcs)

theorem acyclic_arcs : Acyclic (Follows (arcs.map fun b => (b.tail, b.head))) := by
  have hw : WellFormed graph.nodes graph.edges (forest [] graph.groups) := Register.error?_eq_none_iff.mp (by decide)
  obtain ⟨place, h⟩ := Arrangement.exists_arranged hw 4 graph.spacing
  exact arcs_eq ▸ h.acyclic graph.spacing

-- The edge that runs beside the node is upright.
theorem placed_spec : placed.value (.item v.slot) = placed.value (.item d.slot) ∧
    placed.value (.item t.slot) = placed.value (.item d.slot) ∧
    placed.value (.item a.slot) = placed.value (.item d.slot) - 30 := by
  obtain ⟨hmeets, hfeasible, htight, htied⟩ := flow_spec
  have hvalue {u : Variable} (hu : u ∈ tied) :
      placed.value u = placed.value (.item d.slot) + (position u - position (.item d.slot) : Int) / 100 :=
    value_place_of_tied acyclic_arcs hmeets hfeasible htight htied hu (by decide)
  refine ⟨?_, ?_, ?_⟩
  · rw [hvalue (by decide)]
    simp [position, v, d, nodeItem]
  · rw [hvalue (u := .item t.slot) (by decide)]
    simp [position, t, d, nodeItem]
  · rw [hvalue (u := .item a.slot) (by decide)]
    simp [position, a, d, nodeItem]
    norm_num
    ring

-- The coordinates after the three nodes have moved, one after the other.
abbrev afterFirst : Abscissae Rat :=
  balanceNode arcs stock.segments placed v

abbrev afterSecond : Abscissae Rat :=
  balanceNode arcs stock.segments afterFirst a

abbrev balanced : Abscissae Rat :=
  balanceNode arcs stock.segments afterSecond t

theorem balanced_eq : ofLayers graph.spacing [] arrangement.stock.segments arrangement.layers = balanced := by
  have hstock : arrangement.stock = stock := stock_eq
  have hnodes : ([[v], [a, d], [t]] : Layers Rat).flatten.filter (·.kind = .node) = [v, a, t] := by decide
  rw [layers_eq, hstock, ofLayers, balance, hnodes]
  rfl

-- Both ends of the upright edge leave it, halfway to the node beside it.
theorem balanced_spec : balanced.value (.item v.slot) = placed.value (.item d.slot) - 15 ∧
    balanced.value (.item t.slot) = placed.value (.item d.slot) - 15 ∧
    balanced.value (.item a.slot) = placed.value (.item d.slot) - 30 ∧
    balanced.value (.item d.slot) = placed.value (.item d.slot) := by
  obtain ⟨hv, ht, ha⟩ := placed_spec
  obtain ⟨⟨hfree, hneighbours⟩, ⟨⟨b, hb, htail, hhead, hlength⟩, hneighbours'⟩, hfree'', hneighbours''⟩ := moves_spec
  have hkeeps : Keeps arcs placed := keeps_place acyclic_arcs
  have hmidpoint : medianMidpoint [(placed.value (.item d.slot) - 30, (1 : Rat)), (placed.value (.item d.slot), 1)] =
      placed.value (.item d.slot) - 15 := by
    rw [medianMidpoint_pair (by linarith) (by norm_num)]
    ring
  have hfirst : afterFirst.value (.item v.slot) = placed.value (.item d.slot) - 15 := by
    rw [afterFirst, value_balanceNode_of_free hfree (by simp [hneighbours]), middle, hneighbours]
    simpa [ha] using hmidpoint
  have hstay {u : Variable} (hu : u ≠ .item v.slot) : afterFirst.value u = placed.value u :=
    value_balanceNode_of_ne hu
  have hheld : afterSecond.value (.item a.slot) = placed.value (.item d.slot) - 30 := by
    have hstart : afterFirst.value (.item a.slot) = placed.value (.item d.slot) - 30 := (hstay (by decide)).trans ha
    have hmiddle : middle stock.segments afterFirst a = placed.value (.item d.slot) - 15 / 2 := by
      rw [middle, hneighbours']
      simp only [List.map_cons, List.map_nil, hfirst, hstay (u := .item t.slot) (by decide), ht]
      rw [medianMidpoint_pair (by linarith) (by norm_num)]
      ring
    rw [afterSecond, value_balanceNode_of_held (hkeeps.balanceNode stock.segments v) hb htail, hstart]
    · rw [htail, hhead, hlength, hstart, hstay (by decide)]
      norm_num
    · rw [hstart, hmiddle]
      linarith
  have hstay' {u : Variable} (hu : u ≠ .item a.slot) : afterSecond.value u = afterFirst.value u :=
    value_balanceNode_of_ne hu
  have hbend : afterSecond.value (.item d.slot) = placed.value (.item d.slot) :=
    (hstay' (by decide)).trans (hstay (by decide))
  have hlast {u : Variable} (hu : u ≠ .item t.slot) : balanced.value u = afterSecond.value u :=
    value_balanceNode_of_ne hu
  refine ⟨?_, ?_, ?_, ?_⟩
  · rw [hlast (by decide), hstay' (by decide), hfirst]
  · rw [balanced, value_balanceNode_of_free hfree'' (by simp [hneighbours'']), middle, hneighbours'']
    simpa [hheld, hbend] using hmidpoint
  · rw [hlast (by decide), hheld]
  · rw [hlast (by decide), hbend]

end Moves

-- Segments at bends cost twice as much as their weights let on.
theorem objective_eq (x : Abscissae Rat) : objective [] stock.segments x =
    8 * |x.value (.item v.slot) - x.value (.item a.slot)| + 8 * |x.value (.item a.slot) - x.value (.item t.slot)| +
      16 * |x.value (.item v.slot) - x.value (.item d.slot)| +
      16 * |x.value (.item d.slot) - x.value (.item t.slot)| := by
  have hsegments : stock.segments = [⟨v, a, 1⟩, ⟨a, t, 1⟩, ⟨v, d, 1⟩, ⟨d, t, 1⟩] := by decide
  have hcosts : Constraint.segmentCost (⟨v, a, 1⟩ : Segment Rat) = 8 ∧
      Constraint.segmentCost (⟨a, t, 1⟩ : Segment Rat) = 8 ∧ Constraint.segmentCost (⟨v, d, 1⟩ : Segment Rat) = 16 ∧
      Constraint.segmentCost (⟨d, t, 1⟩ : Segment Rat) = 16 := by decide +kernel
  obtain ⟨h₁, h₂, h₃, h₄⟩ := hcosts
  simp only [objective, extent, groupWidths, hsegments, List.map_cons, List.map_nil, List.sum_cons, List.sum_nil, h₁, h₂,
    h₃, h₄]
  push_cast
  ring

-- The optimum is 480, and balancing makes it 720.
theorem objective_balanced_ne : Register.error? graph.nodes graph.edges (forest [] graph.groups) = none ∧
    objective [] arrangement.stock.segments
        (ofLayers graph.spacing [] arrangement.stock.segments arrangement.layers) ≠
      objective [] arrangement.stock.segments (ofLabels (Flow.place (arrangement.arcs graph.spacing []))) := by
  refine ⟨by decide, ?_⟩
  have hstock : arrangement.stock = stock := stock_eq
  obtain ⟨hv, ht, ha⟩ := placed_spec
  obtain ⟨hv', ht', ha', hd'⟩ := balanced_spec
  rw [balanced_eq, arcs_eq, hstock, objective_eq, objective_eq, hv, ht, ha, hv', ht', ha', hd']
  norm_num

end Triangle

end LayeredDiagram
