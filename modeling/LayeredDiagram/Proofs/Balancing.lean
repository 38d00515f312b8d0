import LayeredDiagram.Proofs.MinimumFlows
import Mathlib.Algebra.Order.BigOperators.Group.List
/-!
What determines the horizontal coordinates. The placement has least cost, so that it leaves no slack along any flow
along which some placement leaves none. Balancing then moves nodes only. A node that nothing holds goes to the middle
of its neighbours, so that a row of such nodes, each between two others, halves a displacement again and again.
-/

namespace LayeredDiagram

namespace Flow

variable {κ : Type} {arcs base flow : List (Arc κ)} {a : Arc κ} {x y : κ → Int}

variable [BEq κ] [Hashable κ] [LawfulBEq κ]

-- The placement keeps all lengths, at least cost.
theorem place_spec (h : Acyclic (Follows (arcs.map fun a => (a.tail, a.head)))) :
    Feasible arcs (coordinate (place arcs)) ∧
    ∀ y, Feasible arcs y → totalCost arcs (coordinate (place arcs)) ≤ totalCost arcs y := by
  obtain ⟨hf, labels, hl⟩ := optimal_spec h
  obtain ⟨hx, ht⟩ := coordinate_of_shortest hl
  rw [place, hl]
  have hx := hx.of_bare hf.bare.symm
  exact ⟨hx, fun y hy => ((hf.totalCost_le_iff hx).mpr ht).trans (hf.sent_length_le hy)⟩

omit [Hashable κ] in
theorem isFlow_of_amounts {f : Arc κ → Nat} (h : ∀ a ∈ arcs, ∀ v ∈ [a.tail, a.head],
    total (fun b => ((f b : Int) - b.cost) * atVertex v b) arcs = 0) :
    IsFlow arcs (arcs.map fun a => { a with flow := f a }) := by
  refine isFlow_of_total (by simp [Function.comp_def, Arc.bare]) fun v => ?_
  rw [total, List.map_map]
  by_cases hv : ∃ a ∈ arcs, v ∈ [a.tail, a.head]
  case pos =>
    obtain ⟨a, ha, hv⟩ := hv
    exact h a ha v hv
  case neg =>
    refine List.sum_eq_zero fun n hn => ?_
    obtain ⟨a, ha, rfl⟩ := List.mem_map.mp hn
    have htail : a.tail ≠ v := fun h => hv ⟨a, ha, by simp [h]⟩
    have hhead : a.head ≠ v := fun h => hv ⟨a, ha, by simp [h]⟩
    simp [atVertex, htail, hhead]

-- Amounts that meet the demands determine the distances along all arcs over which something is sent.
theorem across_place {f : Arc κ → Nat} (hA : Acyclic (Follows (arcs.map fun a => (a.tail, a.head))))
    (h : ∀ a ∈ arcs, ∀ v ∈ [a.tail, a.head], total (fun b => ((f b : Int) - b.cost) * atVertex v b) arcs = 0)
    (hy : Feasible arcs y) (ht : ∀ a ∈ arcs, 0 < f a → across y a = a.length) (ha : a ∈ arcs) (hpos : 0 < f a) :
    across (coordinate (place arcs)) a = a.length := by
  obtain ⟨hx, hle⟩ := place_spec hA
  have hf := isFlow_of_amounts h
  have hslack := (hf.totalCost_le_iff hy).mpr fun b hb hpos => by
    obtain ⟨c, hc, rfl⟩ := List.mem_map.mp hb
    exact ht c hc hpos
  exact (hf.totalCost_le_iff hx).mp ((hle y hy).trans hslack) { a with flow := f a } (List.mem_map_of_mem ha) hpos

-- The ends of an arc over which something is sent, in either order.
def Tied (arcs : List (Arc κ)) (f : Arc κ → Nat) (u v : κ) : Prop :=
  ∃ a ∈ arcs, 0 < f a ∧ ((a.tail = u ∧ a.head = v) ∨ (a.tail = v ∧ a.head = u))

instance [DecidableEq κ] (f : Arc κ → Nat) (u v : κ) : Decidable (Tied arcs f u v) :=
  inferInstanceAs (Decidable (∃ a ∈ arcs, 0 < f a ∧ ((a.tail = u ∧ a.head = v) ∨ (a.tail = v ∧ a.head = u))))

-- What is tied together is placed as in any placement without slack along the flow, up to a common offset.
theorem offset_eq_of_tied {f : Arc κ → Nat} (hA : Acyclic (Follows (arcs.map fun a => (a.tail, a.head))))
    (h : ∀ a ∈ arcs, ∀ v ∈ [a.tail, a.head], total (fun b => ((f b : Int) - b.cost) * atVertex v b) arcs = 0)
    (hy : Feasible arcs y) (ht : ∀ a ∈ arcs, 0 < f a → across y a = a.length) {l : List κ}
    (hl : l.IsChain (Tied arcs f)) {u v : κ} (hu : u ∈ l) (hv : v ∈ l) :
    coordinate (place arcs) u - y u = coordinate (place arcs) v - y v := by
  let offset (v : κ) : Int := coordinate (place arcs) v - y v
  have hstep (u v : κ) (huv : Tied arcs f u v) : offset u = offset v := by
    obtain ⟨a, ha, hpos, hends⟩ := huv
    have hx := across_place hA h hy ht ha hpos
    have hlength := ht a ha hpos
    simp only [across] at hx hlength
    simp only [offset]
    rcases hends with ⟨rfl, rfl⟩ | ⟨rfl, rfl⟩ <;> linarith
  have hc : (l.map offset).IsChain (· = ·) := (List.isChain_map offset).mpr (hl.imp hstep)
  exact (List.isChain_iff_pairwise.mp hc).forall_of_forall (fun _ _ => rfl) (List.mem_map_of_mem hu)
    (List.mem_map_of_mem hv)

end Flow

section Tied

variable {arcs : List (Flow.Arc Variable)} {f : Flow.Arc Variable → Nat} {y : Variable → Int} {l : List Variable}
variable {u v : Variable}

theorem Abscissae.value_place_of_tied (hA : Acyclic (Follows (arcs.map fun a => (a.tail, a.head))))
    (h : ∀ a ∈ arcs, ∀ v ∈ [a.tail, a.head], Flow.total (fun b => ((f b : Int) - b.cost) * Flow.atVertex v b) arcs = 0)
    (hy : Flow.Feasible arcs y) (ht : ∀ a ∈ arcs, 0 < f a → Flow.across y a = a.length)
    (hl : l.IsChain (Flow.Tied arcs f)) (hu : u ∈ l) (hv : v ∈ l) :
    (ofLabels (Flow.place arcs) : Abscissae Rat).value u =
      (ofLabels (Flow.place arcs) : Abscissae Rat).value v + (y u - y v : Int) / 100 := by
  have hoffset := Flow.offset_eq_of_tied hA h hy ht hl hu hv
  have : (Flow.coordinate (Flow.place arcs) u : Rat) =
      Flow.coordinate (Flow.place arcs) v + (y u - y v : Int) := by
    rw [← Int.cast_add, Int.cast_inj]
    linarith
  rw [value_ofLabels, value_ofLabels, this]
  ring

end Tied

-- Helpers do not hold what they are to the left of.
def Variable.isHelper : Variable → Bool
  | .helper _ => true
  | _ => false

namespace Abscissae

variable {arcs : List (Flow.Arc Variable)} {segments : List (Segment Rat)} {x : Abscissae Rat} {v : Variable}
variable {i : Item Rat} {items : List (Item Rat)} {a b w t d : Rat} {prev last : Slot}

section Medians

theorem medianMidpoint_single (a : Rat) (hw : 1 / 100000000 ≤ w) : medianMidpoint [(a, w)] = a := by
  have hlower : w / 2 ≤ 0.0 + w + 1e-9 := by
    norm_num
    linarith
  have hupper : w / 2 + 1e-9 < 0.0 + w := by
    norm_num
    linarith
  simp [medianMidpoint, running, Scalar.sum, hlower, hupper]

-- Between two values of the same weight.
theorem medianMidpoint_pair (h : a ≤ b) (hw : 1 / 1000000000 < w) : medianMidpoint [(a, w), (b, w)] = (a + b) / 2 := by
  have hs : [(a, w), (b, w)].mergeSort before = [(a, w), (b, w)] := by
    apply List.mergeSort_of_pairwise
    rcases h.lt_or_eq with hlt | rfl <;> simp [before, *]
  have hhalf : Scalar.sum [w, w] / 2 = w := by
    simp only [Scalar.sum, List.foldl_cons, List.foldl_nil]
    ring
  have hlower : w ≤ 0.0 + w + 1e-9 := by norm_num
  have hupper : ¬w + 1e-9 < 0.0 + w := by norm_num
  have hnext : w + 1e-9 < 0.0 + w + w := by
    norm_num
    linarith
  simp [medianMidpoint, hs, hhalf, running, hlower, hupper, hnext]

-- The second value outweighs the first one.
theorem medianMidpoint_of_heavier (h : a ≤ b) {v : Rat} (hv : 0 < v) (hw : v + 1 / 100000000 ≤ w) :
    medianMidpoint [(a, v), (b, w)] = b := by
  have hs : [(a, v), (b, w)].mergeSort before = [(a, v), (b, w)] := by
    apply List.mergeSort_of_pairwise
    rcases h.lt_or_eq with hlt | rfl
    · simp [before, hlt]
    · have : v ≤ w := by linarith
      simp [before, this]
  have hhalf : Scalar.sum [v, w] / 2 = (v + w) / 2 := by
    simp only [Scalar.sum, List.foldl_cons, List.foldl_nil]
    ring
  have hlower : ¬(v + w) / 2 ≤ 0.0 + v + 1e-9 := by
    norm_num
    linarith
  have hupper : ¬(v + w) / 2 + 1e-9 < 0.0 + v := by
    norm_num
    linarith
  have hlast : (v + w) / 2 ≤ 0.0 + v + w + 1e-9 := by
    norm_num
    linarith
  have hlast' : (v + w) / 2 + 1e-9 < 0.0 + v + w := by
    norm_num
    linarith
  simp [medianMidpoint, hs, hhalf, running, hlower, hupper, hlast, hlast']

-- Between the value of half the weight and the one of the other half.
theorem medianMidpoint_of_half {u : Rat} (h : a < b) (hu : 1 / 100000000 ≤ u) (huw : u < w) :
    medianMidpoint [(b, w), (a, u + w), (b, u)] = (a + b) / 2 := by
  have hba : before (b, w) (a, u + w) = false := by simp [before, h, h.not_gt]
  have hab : before (a, u + w) (b, u) = true := by simp [before, h]
  have hbb : before (b, w) (b, u) = false := by simp [before, huw]
  have hs : [(b, w), (a, u + w), (b, u)].mergeSort before = [(a, u + w), (b, u), (b, w)] := by
    simp [List.mergeSort, List.MergeSort.Internal.splitInTwo, hba, hab, hbb]
  have hhalf : Scalar.sum [u + w, u, w] / 2 = u + w := by
    simp only [Scalar.sum, List.foldl_cons, List.foldl_nil]
    ring
  have hlower : u + w ≤ 0.0 + (u + w) + 1e-9 := by norm_num
  have hupper : ¬u + w + 1e-9 < 0.0 + (u + w) := by norm_num
  have hnext : u + w + 1e-9 < 0.0 + (u + w) + u := by
    norm_num
    linarith
  simp [medianMidpoint, hs, hhalf, running, hlower, hupper, hnext]

end Medians

section Moves

-- All neighbours of an item with the weights of their segments.
def neighbours (segments : List (Segment Rat)) (i : Item Rat) : List (Slot × Rat) :=
  Layers.above segments i.slot ++ Layers.below segments i.slot

-- The middle of the neighbours of an item.
def middle (segments : List (Segment Rat)) (x : Abscissae Rat) (i : Item Rat) : Rat :=
  medianMidpoint ((neighbours segments i).map fun (slot, weight) => (x.value (.item slot), weight))

theorem middle_of_single {slot : Slot} (h : neighbours segments i = [(slot, w)]) (hw : 1 / 100000000 ≤ w) :
    middle segments x i = x.value (.item slot) := by
  rw [middle, h]
  exact medianMidpoint_single _ hw

theorem value_balanceNode_of_ne (h : v ≠ .item i.slot) : (balanceNode arcs segments x i).value v = x.value v := by
  simp only [balanceNode]
  split
  case isTrue => rfl
  case isFalse =>
    split
    case h_1 => rw [value_insert, if_neg (by simpa using h.symm)]
    case h_2 => rfl

theorem value_foldl_balanceNode (h : ∀ i ∈ items, v ≠ .item i.slot) :
    (items.foldl (balanceNode arcs segments) x).value v = x.value v := by
  induction items generalizing x
  case nil => rfl
  case cons i items hi =>
    obtain ⟨hne, h⟩ := List.forall_mem_cons.mp h
    rw [List.foldl_cons, hi h, value_balanceNode_of_ne hne]

-- Only helpers are to the left of a variable, and nothing is to the right of it.
def Free (arcs : List (Flow.Arc Variable)) (v : Variable) : Prop :=
  ∀ a ∈ arcs, a.tail ≠ v ∧ (a.head = v → a.tail.isHelper)

instance : Decidable (Free arcs v) :=
  inferInstanceAs (Decidable (∀ a ∈ arcs, a.tail ≠ v ∧ (a.head = v → a.tail.isHelper)))

theorem Free.lowest?_eq_none (h : Free arcs v) : lowest? arcs x v = none := by
  unfold lowest?
  refine (congrArg Scalar.largest? (List.filterMap_eq_nil_iff.mpr fun a ha => ?_)).trans rfl
  obtain ⟨ha, hv⟩ := List.mem_filter.mp ha
  have := (h a ha).right (by simpa using hv)
  cases ht : a.tail <;> simp [ht, Variable.isHelper] at this ⊢

theorem Free.highest?_eq_none (h : Free arcs v) : highest? arcs x v = none := by
  have hnil : arcs.filter (·.tail = v) = [] := by
    refine List.filter_eq_nil_iff.mpr fun a ha => ?_
    simpa using (h a ha).left
  rw [highest?, hnil]
  rfl

-- A node that nothing holds goes to the middle of its neighbours.
theorem value_balanceNode_of_free (h : Free arcs (.item i.slot)) (hn : neighbours segments i ≠ []) :
    (balanceNode arcs segments x i).value (.item i.slot) = middle segments x i := by
  have hempty : (Layers.above segments i.slot ++ Layers.below segments i.slot).isEmpty = false := by
    simpa [neighbours] using hn
  simp only [balanceNode, hempty, h.lowest?_eq_none, h.highest?_eq_none, clamp?]
  rw [if_neg (by simp), if_neg (by simp)]
  simp [value_insert, middle, neighbours]

theorem Keeps.lowest?_le (hk : Keeps arcs x) (h : lowest? arcs x v = some a) : a ≤ x.value v := by
  obtain ⟨b, hbm, hab⟩ := List.mem_filterMap.mp (Scalar.mem_of_largest? h)
  obtain ⟨hb, hv⟩ := List.mem_filter.mp hbm
  obtain rfl : b.head = v := by simpa using hv
  split at hab
  case h_1 => cases hab
  case h_2 ht =>
    rw [← Option.some.inj hab]
    exact hk b hb ht

theorem Keeps.le_highest? (hk : Keeps arcs x) (h : highest? arcs x v = some a) : x.value v ≤ a := by
  obtain ⟨b, hbm, hab⟩ := List.mem_filterMap.mp (Scalar.mem_of_smallest? h)
  obtain ⟨hb, hv⟩ := List.mem_filter.mp hbm
  obtain rfl : b.tail = v := by simpa using hv
  split at hab
  case h_1 => cases hab
  case h_2 ht =>
    rw [← Option.some.inj hab]
    have := hk b hb ht
    linarith

-- A place that the bounds leave free is not passed on the way to the target, and not left behind.
theorem exists_clamp? {current : Rat} (target : Rat) {low high : Option Rat} (hl : ∀ l, low = some l → l ≤ current)
    (hh : ∀ u, high = some u → current ≤ u) : ∃ m ∈ Set.uIcc current target, clamp? target low high = some m := by
  cases low <;> cases high
  case none.none => exact ⟨target, Set.right_mem_uIcc, rfl⟩
  case some.none l =>
    have := hl l rfl
    refine ⟨max target l, ?_, by simp [clamp?, Scalar.larger_eq_max]⟩
    rw [Set.mem_uIcc]
    grind
  case none.some u =>
    have := hh u rfl
    refine ⟨min target u, ?_, by simp [clamp?, Scalar.smaller_eq_min]⟩
    rw [Set.mem_uIcc]
    grind
  case some.some l u =>
    have hlow := hl l rfl
    have hhigh := hh u rfl
    refine ⟨min (max target l) u, ?_, ?_⟩
    · rw [Set.mem_uIcc]
      grind
    · simp [clamp?, Scalar.larger_eq_max, Scalar.smaller_eq_min, (hlow.trans hhigh).not_gt]

-- A node moves on the way to the middle of its neighbours, as far as its bounds allow.
theorem Keeps.exists_balanceNode_eq (hk : Keeps arcs x) (hn : neighbours segments i ≠ []) :
    ∃ m ∈ Set.uIcc (x.value (.item i.slot)) (middle segments x i),
      clamp? (middle segments x i) (lowest? arcs x (.item i.slot)) (highest? arcs x (.item i.slot)) = some m ∧
      Abscissae.balanceNode arcs segments x i = x.insert (.item i.slot) m := by
  obtain ⟨m, hm, hc⟩ := exists_clamp? (middle segments x i) (fun _ => hk.lowest?_le) (fun _ => hk.le_highest?)
  refine ⟨m, hm, hc, ?_⟩
  simp only [middle, neighbours] at hc
  have hempty : (Layers.above segments i.slot ++ Layers.below segments i.slot).isEmpty = false := by
    simpa [neighbours] using hn
  simp only [Abscissae.balanceNode, hempty, Bool.false_eq_true, if_false, hc]

theorem balanceNode_of_neighbours_eq_nil (hn : neighbours segments i = []) : balanceNode arcs segments x i = x := by
  simp only [neighbours] at hn
  simp [balanceNode, hn]

-- A node that is held on its way to the middle of its neighbours stays.
theorem value_balanceNode_of_held (hk : Keeps arcs x) {b : Flow.Arc Variable} (hb : b ∈ arcs)
    (ht : b.tail = .item i.slot) (hx : x.value b.tail + (b.length : Rat) / 100 = x.value b.head)
    (hm : x.value (.item i.slot) ≤ middle segments x i) :
    (balanceNode arcs segments x i).value (.item i.slot) = x.value (.item i.slot) := by
  by_cases hn : neighbours segments i = []
  case pos => rw [balanceNode_of_neighbours_eq_nil hn]
  case neg =>
    obtain ⟨m, hbetween, hc, heq⟩ := hk.exists_balanceNode_eq hn
    obtain ⟨high, hhigh, hle⟩ := exists_highest? hb (by simp [ht]) x
    rw [ht] at hhigh hx
    have hmhigh := (clamp?_eq_some hc).right high hhigh
    rw [Set.uIcc_of_le hm] at hbetween
    rw [heq, value_insert, if_pos (beq_self_eq_true _)]
    exact le_antisymm (by linarith) hbetween.left

end Moves

section Relays

-- A row of free nodes, each of them between its neighbours in the row, behind one slot and in front of another.
def Relay (arcs : List (Flow.Arc Variable)) (segments : List (Segment Rat)) (last : Slot) : Slot → List (Item Rat) → Prop
  | _, [] => True
  | prev, i :: items => Free arcs (.item i.slot) ∧
      neighbours segments i = [(prev, 1), ((items.head?.map (·.slot)).getD last, 1)] ∧ Relay arcs segments last i.slot items

instance Relay.decidable (arcs : List (Flow.Arc Variable)) (segments : List (Segment Rat)) (last : Slot) :
    (prev : Slot) → (items : List (Item Rat)) → Decidable (Relay arcs segments last prev items)
  | _, [] => .isTrue trivial
  | _, i :: items =>
    have := Relay.decidable arcs segments last i.slot items
    inferInstanceAs (Decidable (_ ∧ _ ∧ _))

-- By induction on the row. Each node goes to the middle between the one before it, which has moved, and the one
-- behind it, which has not.
theorem Relay.value_foldl (h : Relay arcs segments last prev items) (hn : (prev :: items.map (·.slot)).Nodup)
    (hlast : last ∉ items.map (·.slot)) (hd : 0 ≤ d) (hprev : x.value (.item prev) = t - d)
    (ht : ∀ s ∈ items.map (·.slot) ++ [last], x.value (.item s) = t) :
    (items.foldl (balanceNode arcs segments) x).value (.item ((items.getLast?.map (·.slot)).getD prev)) =
      t - d / 2 ^ items.length := by
  induction items generalizing prev x d
  case nil => simpa using hprev
  case cons i items hi =>
    obtain ⟨hfree, hneighbours, h⟩ := h
    obtain ⟨hprevn, hn⟩ := List.nodup_cons.mp hn
    have hnext : x.value (.item ((items.head?.map (·.slot)).getD last)) = t := by
      apply ht
      cases items <;> simp
    have hmiddle : middle segments x i = t - d / 2 := by
      have : medianMidpoint [(t - d, (1 : Rat)), (t, 1)] = t - d / 2 := by
        rw [medianMidpoint_pair (by linarith) (by norm_num)]
        ring
      rw [middle, hneighbours]
      simp only [List.map_cons, List.map_nil, hprev, hnext, this]
    have hmoved : (balanceNode arcs segments x i).value (.item i.slot) = t - d / 2 := by
      rw [value_balanceNode_of_free hfree (by simp [hneighbours]), hmiddle]
    have hrest : ∀ s ∈ items.map (·.slot) ++ [last], (balanceNode arcs segments x i).value (.item s) = t := by
      intro s hs
      have hne : Variable.item s ≠ .item i.slot := by
        rintro ⟨⟩
        rcases List.mem_append.mp hs with hs | hs
        · exact (List.nodup_cons.mp hn).left hs
        · exact hlast (by simp [List.mem_singleton.mp hs])
      rw [value_balanceNode_of_ne hne]
      exact ht s (List.mem_append.mpr ((List.mem_append.mp hs).imp_left (List.mem_cons_of_mem _)))
    have hrec := hi h hn (fun hm => hlast (List.mem_cons_of_mem _ hm)) (by linarith) hmoved hrest
    have hgetLast : ((i :: items).getLast?.map (·.slot)).getD prev = (items.getLast?.map (·.slot)).getD i.slot := by
      cases items <;> simp [List.getLast?_cons]
    rw [List.foldl_cons, hgetLast, hrec, List.length_cons, pow_succ', div_div]

end Relays

end Abscissae

section Gaps

open LayeredDiagram.Group Arrangement

variable {spacing : Spacing Rat} {entries : List Group.Entry} {segments : List (Segment Rat)} {layers : Layers Rat}
variable {x : Abscissae Rat}

-- The ends of a constraint are as far apart as its gap in whole hundredths.
def Constraint.KeptScaled (x : Abscissae Rat) (c : Constraint Rat) : Prop :=
  x.value c.tail + (scaled c.gap : Rat) / 100 ≤ x.value c.head

theorem Abscissae.keeps_iff : Keeps ((Constraint.all spacing entries segments layers).map Constraint.toArc) x ↔
    ∀ c ∈ Constraint.all spacing entries segments layers, (∀ k, c.tail ≠ .helper k) → c.KeptScaled x :=
  List.forall_mem_map

-- Balancing keeps all gaps between neighbours and around what is in groups, node by node, and moves nothing but nodes.
theorem Abscissae.keptScaled_balance
    (h : ∀ c ∈ Constraint.all spacing entries segments layers, (∀ k, c.tail ≠ .helper k) → c.KeptScaled x) :
    let arcs := (Constraint.all spacing entries segments layers).map Constraint.toArc
    let nodes := layers.flatten.filter (·.kind = .node)
    (∀ moved, moved <+: nodes → ∀ c ∈ Constraint.all spacing entries segments layers, (∀ k, c.tail ≠ .helper k) →
      c.KeptScaled (moved.foldl (balanceNode arcs segments) x)) ∧
    (∀ c ∈ Constraint.all spacing entries segments layers, (∀ k, c.tail ≠ .helper k) →
      c.KeptScaled (balance arcs segments layers x)) ∧
    ∀ v, (∀ i ∈ nodes, v ≠ .item i.slot) → (balance arcs segments layers x).value v = x.value v := by
  intro arcs nodes
  have hkeeps : Keeps arcs x := keeps_iff.mpr h
  refine ⟨fun moved _ => keeps_iff.mp (hkeeps.foldl_balanceNode segments moved), ?_, fun v hv => ?_⟩
  · exact keeps_iff.mp (hkeeps.balance segments layers)
  · exact value_foldl_balanceNode hv

theorem Abscissae.keptScaled_balance_nestedGroups :
    let a := ofGraph 4 nestedGroups.nodes nestedGroups.edges nestedGroups.spacing (forest [] nestedGroups.groups)
    let placed : Abscissae Rat := ofLabels (Flow.place (a.arcs nestedGroups.spacing (forest [] nestedGroups.groups)))
    ∀ c ∈ Constraint.all nestedGroups.spacing (forest [] nestedGroups.groups) a.stock.segments a.layers,
      (∀ k, c.tail ≠ .helper k) → c.KeptScaled placed ∧
        c.KeptScaled (ofLayers nestedGroups.spacing (forest [] nestedGroups.groups) a.stock.segments a.layers) := by
  intro a placed c hc ht
  have hw : WellFormed nestedGroups.nodes nestedGroups.edges (forest [] nestedGroups.groups) :=
    Register.error?_eq_none_iff.mp (by decide)
  obtain ⟨place, h⟩ := exists_arranged hw 4 nestedGroups.spacing
  have hplaced := keeps_iff.mp (keeps_place (h.acyclic nestedGroups.spacing))
  exact ⟨hplaced c hc ht, (keptScaled_balance hplaced).right.left c hc ht⟩

end Gaps

end LayeredDiagram
