import LayeredDiagram.Proofs.Labels
import LayeredDiagram.Proofs.Orientation
import Mathlib.Algebra.BigOperators.Ring.Finset
import Mathlib.Algebra.Order.BigOperators.Group.List
import Mathlib.Tactic.Ring
/-!
Flows that meet the demands of the costs, and their improvement. What a flow sends over the lengths of its
arcs is at most the cost of any placement that keeps the lengths. Sending flow along a cycle of negative
weight keeps the demands and sends more, so that after finitely many rounds no such cycle is left, and the
shortest distances of the residual graph are a placement of least cost.
-/

namespace LayeredDiagram.Flow

variable {κ : Type} {arcs base : List (Arc κ)} {steps cycle : List (Step κ)} {s t : Step κ} {a : Arc κ}
variable {u v : κ} {amount i : Nat} {x y : κ → Int} {φ ψ : Arc κ → Int}

section Residual

theorem mem_residual_iff : s ∈ residual arcs ↔ ∃ a, arcs[s.arc]? = some a ∧
    ((s.isForward = true ∧ s.source = a.tail ∧ s.target = a.head ∧ s.weight = -a.length) ∨
    (s.isForward = false ∧ 0 < a.flow ∧ s.source = a.head ∧ s.target = a.tail ∧ s.weight = a.length)) := by
  obtain ⟨source, target, weight, arc, isForward⟩ := s
  simp only [residual, List.mem_flatMap, Prod.exists, List.mk_mem_zipIdx_iff_getElem?]
  constructor
  case mp =>
    intro ⟨a, i, ha, hs⟩
    split at hs <;> simp at hs <;> grind
  case mpr =>
    intro ⟨a, ha, h⟩
    refine ⟨a, arc, ha, ?_⟩
    grind

-- An arc without its flow.
def Arc.bare (a : Arc κ) : Arc κ :=
  { a with flow := 0 }

-- Placements that keep all lengths.
def Feasible (arcs : List (Arc κ)) (x : κ → Int) : Prop :=
  ∀ a ∈ arcs, a.length ≤ x a.head - x a.tail

theorem Feasible.of_bare (h : arcs.map Arc.bare = base.map Arc.bare) (hx : Feasible base x) :
    Feasible arcs x := by
  have hbare (arcs : List (Arc κ)) : Feasible (arcs.map Arc.bare) x ↔ Feasible arcs x := by
    simp [Feasible, Arc.bare]
  rwa [← hbare arcs, h, hbare base]

end Residual

section Sums

-- The sum of a value over all arcs.
def total (φ : Arc κ → Int) (arcs : List (Arc κ)) : Int :=
  (arcs.map φ).sum

theorem total_cons : total φ (a :: arcs) = φ a + total φ arcs := by
  simp [total]

theorem total_eq_of_bare (h : arcs.map Arc.bare = base.map Arc.bare) (hφ : ∀ a, φ a.bare = φ a) :
    total φ arcs = total φ base := by
  have hm (arcs : List (Arc κ)) : arcs.map φ = (arcs.map Arc.bare).map φ := by simp [hφ]
  rw [total, total, hm arcs, hm base, h]

theorem total_le (h : ∀ a ∈ arcs, φ a ≤ ψ a) : total φ arcs ≤ total ψ arcs :=
  List.sum_le_sum h

theorem total_modify {f : Arc κ → Arc κ} (h : arcs[i]? = some a) :
    total φ (arcs.modify i f) = total φ arcs + (φ (f a) - φ a) := by
  induction arcs generalizing i
  case nil => simp at h
  case cons b arcs hi =>
    cases i
    case zero =>
      simp only [List.getElem?_cons_zero, Option.some.injEq] at h
      rw [List.modify_zero_cons, total_cons, total_cons, h]
      ring
    case succ i =>
      rw [List.modify_succ_cons, total_cons, total_cons, hi (by simpa using h)]
      ring

-- What a flow sends over distances between the ends of arcs, and over their lengths.
def across (x : κ → Int) (a : Arc κ) : Int :=
  x a.head - x a.tail

def sent (φ : Arc κ → Int) (arcs : List (Arc κ)) : Int :=
  total (fun a => a.flow * φ a) arcs

theorem totalCost_eq : totalCost arcs x = total (fun a => a.cost * across x a) arcs := by
  induction arcs
  case nil => rfl
  case cons a arcs hi =>
    rw [total_cons, ← hi]
    rfl

theorem total_flow_sub_cost : total (fun a => ((a.flow : Int) - a.cost) * φ a) arcs =
    sent φ arcs - total (fun a => a.cost * φ a) arcs := by
  induction arcs
  case nil => rfl
  case cons a arcs hi =>
    rw [sent, total_cons, total_cons, total_cons, hi, sent]
    ring

theorem foldr_sent : arcs.foldr (fun a total => (a.flow : Int) * a.length + total) 0 = sent Arc.length arcs := by
  induction arcs
  case nil => rfl
  case cons a arcs hi =>
    rw [List.foldr_cons, hi, sent, sent, total_cons]

-- A flow over the arcs of a network that meets the demands of the costs.
structure IsFlow (base arcs : List (Arc κ)) : Prop where
  bare : arcs.map Arc.bare = base.map Arc.bare
  meets : ∀ x : κ → Int, sent (across x) arcs = totalCost base x

-- Weak duality.
theorem IsFlow.sent_length_le (h : IsFlow base arcs) (hx : Feasible base x) :
    sent Arc.length arcs ≤ totalCost base x := by
  rw [← h.meets x]
  refine total_le fun a ha => ?_
  exact mul_le_mul_of_nonneg_left (hx.of_bare h.bare a ha) (Int.natCast_nonneg _)

end Sums

section Push

-- Sends an amount along one step.
def pass (amount : Nat) (arcs : List (Arc κ)) (s : Step κ) : List (Arc κ) :=
  arcs.modify s.arc fun a => { a with flow := if s.isForward then a.flow + amount else a.flow - amount }

theorem push_cons : push amount arcs (s :: steps) = push amount (pass amount arcs s) steps :=
  rfl

theorem bare_pass : (pass amount arcs s).map Arc.bare = arcs.map Arc.bare := by
  apply List.ext_getElem?
  intro i
  simp only [pass, List.getElem?_map, List.getElem?_modify]
  cases arcs[i]?
  case none => rfl
  case some a => by_cases h : s.arc = i <;> simp [h, Arc.bare]

-- How a value of arcs counts along a step.
def Along (arcs : List (Arc κ)) (φ : Arc κ → Int) (ψ : Step κ → Int) (s : Step κ) : Prop :=
  ∃ a, arcs[s.arc]? = some a ∧ ψ s = if s.isForward then φ a else -φ a

-- A flow carries an amount along a step if there is enough to take back.
def Carries (amount : Nat) (arcs : List (Arc κ)) (s : Step κ) : Prop :=
  s.isForward = false → ∀ a, arcs[s.arc]? = some a → amount ≤ a.flow

theorem sent_pass (hφ : ∀ a, φ a.bare = φ a) (h : arcs[s.arc]? = some a) (hc : Carries amount arcs s) :
    sent φ (pass amount arcs s) = sent φ arcs + amount * if s.isForward then φ a else -φ a := by
  have bare n : φ { a with flow := n } = φ a := by rw [← hφ, ← hφ a, Arc.bare, Arc.bare]
  rw [sent, sent, pass, total_modify h]
  simp only [bare]
  split
  case isTrue => push_cast; ring
  case isFalse hf =>
    have := hc (by simpa using hf) a h
    push_cast [this]
    ring

-- Steps against the same arc start at the same vertex, so that at most one of them is on the cycle.
theorem sent_push {ψ : Step κ → Int} (hφ : ∀ a, φ a.bare = φ a) (hb : arcs.map Arc.bare = base.map Arc.bare)
    (hs : ∀ s ∈ steps, s ∈ residual base) (hn : (steps.map (·.source)).Nodup)
    (hψ : ∀ s ∈ steps, Along base φ ψ s) (hc : ∀ s ∈ steps, Carries amount arcs s) :
    sent φ (push amount arcs steps) = sent φ arcs + amount * (steps.map ψ).sum := by
  induction steps generalizing arcs
  case nil => simp [push]
  case cons s steps hi =>
    have ⟨hsn, hn⟩ := List.nodup_cons.mp hn
    have ⟨b, hsb, hψs⟩ := hψ s List.mem_cons_self
    have ⟨a, ha, hab⟩ : ∃ a, arcs[s.arc]? = some a ∧ a.bare = b.bare := by
      have := congrArg (·[s.arc]?) hb
      simpa [hsb] using this
    have carries : ∀ t ∈ steps, Carries amount (pass amount arcs s) t := by
      intro t ht hf c hc'
      rw [pass, List.getElem?_modify] at hc'
      by_cases hst : s.arc = t.arc
      case neg => exact hc t (by simp [ht]) hf c (by simpa [hst] using hc')
      case pos =>
        by_cases hsf : s.isForward
        case pos =>
          have := hc t (by simp [ht]) hf a (hst ▸ ha)
          simp only [hst, hst ▸ ha, hsf, if_true, Option.map_eq_map, Option.map_some, Option.some.injEq] at hc'
          rw [← hc']
          exact this.trans (Nat.le_add_right ..)
        case neg =>
          have ⟨_, h₁, h₁'⟩ := mem_residual_iff.mp (hs s List.mem_cons_self)
          have ⟨_, h₂, h₂'⟩ := mem_residual_iff.mp (hs t (by simp [ht]))
          refine absurd (List.mem_map.mpr ⟨t, ht, ?_⟩) hsn
          rw [← hst, h₁] at h₂
          grind
    have hr := hi (bare_pass.trans hb) (fun t ht => hs t (by simp [ht])) hn (fun t ht => hψ t (by simp [ht])) carries
    rw [push_cons, hr, sent_pass hφ ha (hc s List.mem_cons_self), List.map_cons, List.sum_cons, hψs,
      ← hφ a, hab, hφ]
    ring

theorem bare_push : (push amount arcs steps).map Arc.bare = arcs.map Arc.bare := by
  induction steps generalizing arcs
  case nil => rfl
  case cons s steps hi => exact push_cons ▸ hi.trans bare_pass

theorem capacity?_eq_some (hs : cycle ⊆ residual arcs) (h : capacity? arcs cycle = some amount) :
    0 < amount ∧ ∀ s ∈ cycle, Carries amount arcs s := by
  have ⟨hm, hle⟩ := List.min?_eq_some_iff.mp h
  constructor
  case left =>
    have ⟨s, hsm, he⟩ := List.mem_map.mp hm
    have ⟨hsc, hf⟩ := List.mem_filter.mp hsm
    have ⟨a, ha, h⟩ := mem_residual_iff.mp (hs hsc)
    rw [ha] at he
    grind
  case right =>
    intro s hsc hf a ha
    exact hle a.flow (List.mem_map.mpr ⟨s, List.mem_filter.mpr ⟨hsc, by simp [hf]⟩, by simp [ha]⟩)

-- A cycle without a limit would be a cycle of lengths that no placement keeps.
theorem exists_capacity? (hx : Feasible arcs x) (h : IsNegative (residual arcs) cycle) :
    ∃ amount, capacity? arcs cycle = some amount := by
  by_contra hn
  have hl : capacity? arcs cycle = none := by
    simpa [Option.eq_none_iff_forall_not_mem] using hn
  have ⟨v, hr⟩ := h.route
  have hw := hr.le_add_weight (x := fun v => -x v) fun s hs => by
    have ⟨a, ha, hd⟩ := mem_residual_iff.mp (hr.subset hs)
    have hf : s.isForward = true := by
      by_contra hf
      have hm : s ∈ cycle.filter (!·.isForward) := List.mem_filter.mpr ⟨hs, by simpa using hf⟩
      rw [capacity?, List.min?_eq_none_iff, List.map_eq_nil_iff] at hl
      simp [hl] at hm
    have := hx a (List.mem_of_getElem? ha)
    rcases hd with ⟨_, hsrc, htgt, hwt⟩ | ⟨hb, _⟩
    · rw [hsrc, htgt, hwt]
      linarith
    · simp [hf] at hb
  have := h.weight_neg
  linarith

theorem IsFlow.push (hf : IsFlow base arcs) (h : IsNegative (residual arcs) cycle)
    (hc : capacity? arcs cycle = some amount) : IsFlow base (push amount arcs cycle) ∧
      sent Arc.length arcs < sent Arc.length (Flow.push amount arcs cycle) := by
  have ⟨v, hr⟩ := h.route
  have ⟨hpos, hca⟩ := capacity?_eq_some hr.subset hc
  have hs : ∀ s ∈ cycle, s ∈ residual arcs := fun _ h => hr.subset h
  refine ⟨⟨bare_push.trans hf.bare, fun x => ?meets⟩, ?sent⟩
  case meets =>
    have along : ∀ s ∈ cycle, Along arcs (across x) (fun s => x s.target - x s.source) s := fun s hsc => by
      have ⟨a, ha, hd⟩ := mem_residual_iff.mp (hs s hsc)
      refine ⟨a, ha, ?_⟩
      rcases hd with ⟨hf, hsrc, htgt, _⟩ | ⟨hf, _, hsrc, htgt, _⟩ <;> simp [hf, hsrc, htgt, across]
    rw [sent_push (fun _ => rfl) rfl hs h.nodup along hca, hr.sum_across, hf.meets, sub_self, mul_zero, add_zero]
  case sent =>
    have along : ∀ s ∈ cycle, Along arcs Arc.length (fun s => -s.weight) s := fun s hsc => by
      have ⟨a, ha, hd⟩ := mem_residual_iff.mp (hs s hsc)
      refine ⟨a, ha, ?_⟩
      rcases hd with ⟨hf, _, _, hw⟩ | ⟨hf, _, _, _, hw⟩ <;> simp [hf, hw]
    have hw : (cycle.map fun s => -s.weight).sum = -weight cycle := by
      rw [weight, List.sum_neg, List.map_map]
      rfl
    rw [sent_push (fun _ => rfl) rfl hs h.nodup along hca, hw]
    have := h.weight_neg
    have : 0 < (amount : Int) * -weight cycle := mul_pos (by exact_mod_cast hpos) (by linarith)
    linarith

-- Without flow, a closed route is a cycle of arcs.
theorem not_isNegative_bare (h : Acyclic (Follows (arcs.map fun a => (a.tail, a.head)))) :
    ¬IsNegative (residual (arcs.map Arc.bare)) cycle := by
  intro hn
  have ⟨v, hr⟩ := hn.route
  refine h v (hr.transGen (fun s hs => ?_) fun hc => ?_)
  · have ⟨b, hb, hd⟩ := mem_residual_iff.mp hs
    have ⟨a, ha, he⟩ := List.mem_map.mp (List.mem_of_getElem? hb)
    subst he
    rcases hd with ⟨_, hs, ht, _⟩ | ⟨_, hpos, _⟩
    · exact List.mem_map.mpr ⟨a, ha, by rw [hs, ht]; rfl⟩
    · simp [Arc.bare] at hpos
  · have := hn.weight_neg
    simp [hc, weight] at this

end Push

section Start

theorem isFlow_plain : IsFlow arcs (plain arcs) where
  bare := by simp [plain, Function.comp_def, Arc.bare]
  meets x := by simp [totalCost_eq, sent, total, plain, Function.comp_def, across]

theorem size_foldl_modify {β γ : Type} {f : γ → Nat} {g : γ → β → β} (path : List γ) (flow : Array β) :
    (path.foldl (fun flow step => flow.modify (f step) (g step)) flow).size = flow.size := by
  induction path generalizing flow
  case nil => rfl
  case cons step path hi => rw [List.foldl_cons, hi, Array.size_modify]

theorem size_flow_sendAll (n : Transport.Network) (fuel : Nat) (vs : List Nat) (s : Transport.State) :
    (n.sendAll fuel vs s).flow.size = s.flow.size := by
  induction fuel generalizing vs s
  case zero => rfl
  case succ fuel hi =>
    cases vs
    case nil => rfl
    case cons v vs =>
      simp only [Transport.Network.sendAll]
      split
      case isTrue => exact hi _ _
      case isFalse =>
        split
        case h_1 => exact hi _ _
        case h_2 => exact (hi _ _).trans (size_foldl_modify _ _)

theorem size_transport (n : Transport.Network) (surplus price : Array Int) :
    (n.transport surplus price).size = n.arcs.size := by
  rw [Transport.Network.transport, size_flow_sendAll, Array.size_replicate]

theorem bare_zipWith {flow : List Nat} (h : flow.length = arcs.length) :
    (arcs.zipWith (fun a f => { a with flow := f }) flow).map Arc.bare = arcs.map Arc.bare := by
  induction arcs generalizing flow
  case nil => simp
  case cons a arcs hi =>
    cases flow
    case nil => simp at h
    case cons f flow =>
      rw [List.zipWith_cons_cons, List.map_cons, List.map_cons, hi (by simpa using h)]
      rfl

variable [BEq κ] [Hashable κ]

theorem bare_transported : (transported arcs).map Arc.bare = arcs.map Arc.bare := by
  unfold transported
  split
  case h_1 => rfl
  case h_2 => exact bare_zipWith (by simp [size_transport, Transport.Network.ofArcs])

variable [LawfulBEq κ]

-- How much an arc counts at a vertex.
def atVertex (v : κ) (a : Arc κ) : Int :=
  (if a.head == v then 1 else 0) - (if a.tail == v then 1 else 0)

theorem getD_balance (v : κ) : (balance φ arcs).getD v 0 = total (fun a => φ a * atVertex v a) arcs := by
  have h (b : Std.HashMap κ Int) : (arcs.foldl (fun b a =>
      let b := b.insert a.head (b.getD a.head 0 + φ a)
      b.insert a.tail (b.getD a.tail 0 - φ a)) b).getD v 0 =
      b.getD v 0 + total (fun a => φ a * atVertex v a) arcs := by
    induction arcs generalizing b
    case nil => simp [total]
    case cons a arcs hi =>
      rw [List.foldl_cons, hi, total_cons]
      simp only [Std.HashMap.getD_insert, beq_iff_eq, atVertex]
      split_ifs <;> simp_all <;> ring
  rw [balance, h, Std.HashMap.getD_empty, zero_add]

omit [Hashable κ] in
theorem sum_atVertex {R : Type} [CommRing R] [DecidableEq κ] {vertices : Finset κ} (hh : a.head ∈ vertices)
    (ht : a.tail ∈ vertices) (c : Int) (x : κ → R) :
    ∑ v ∈ vertices, x v * ((c * atVertex v a : Int) : R) = (c : R) * (x a.head - x a.tail) := by
  have hv (v : κ) : x v * ((c * atVertex v a : Int) : R) =
      (if a.head = v then (c : R) * x v else 0) - (if a.tail = v then (c : R) * x v else 0) := by
    simp only [atVertex, beq_iff_eq]
    split_ifs <;> push_cast <;> ring
  simp only [hv, Finset.sum_sub_distrib, Finset.sum_ite_eq, hh, ht, if_true]
  ring

-- A value that vanishes at every vertex vanishes for every placement, which is a sum over vertices.
omit [Hashable κ] in
theorem sum_across_eq_zero {R : Type} [CommRing R] (h : ∀ v, total (fun a => φ a * atVertex v a) arcs = 0)
    (x : κ → R) : (arcs.map fun a => (φ a : R) * (x a.head - x a.tail)).sum = 0 := by
  classical
  let vertices : Finset κ := (arcs.flatMap fun a => [a.head, a.tail]).toFinset
  have sum (l : List (Arc κ)) (hl : ∀ a ∈ l, a.head ∈ vertices ∧ a.tail ∈ vertices) :
      (l.map fun a => (φ a : R) * (x a.head - x a.tail)).sum =
        ∑ v ∈ vertices, x v * ((total (fun a => φ a * atVertex v a) l : Int) : R) := by
    induction l
    case nil => simp [total]
    case cons a l hi =>
      have ⟨ha, hl⟩ := List.forall_mem_cons.mp hl
      simp only [List.map_cons, List.sum_cons, total_cons, Int.cast_add, mul_add, Finset.sum_add_distrib, hi hl,
        sum_atVertex ha.left ha.right]
  rw [sum arcs fun a ha => ?mem]
  case mem =>
    simp only [vertices, List.mem_toFinset, List.mem_flatMap]
    exact ⟨⟨a, ha, by simp⟩, ⟨a, ha, by simp⟩⟩
  exact Finset.sum_eq_zero fun v _ => by rw [h v, Int.cast_zero, mul_zero]

omit [Hashable κ] in
theorem total_across_eq_zero (h : ∀ v, total (fun a => φ a * atVertex v a) arcs = 0) (x : κ → Int) :
    total (fun a => φ a * across x a) arcs = 0 :=
  sum_across_eq_zero h x

theorem balance_eq_zero (h : (balance φ arcs).toList.all (·.2 == 0)) (v : κ) :
    total (fun a => φ a * atVertex v a) arcs = 0 := by
  rw [← getD_balance, Std.HashMap.getD_eq_getD_getElem?]
  cases hv : (balance φ arcs)[v]?
  case none => rfl
  case some n =>
    have := List.all_eq_true.mp h (v, n) (Std.HashMap.mem_toList_iff_getElem?_eq_some.mpr hv)
    simpa using this

-- A flow that leaves nothing beyond the demands at any vertex.
omit [Hashable κ] in
theorem isFlow_of_total (hb : arcs.map Arc.bare = base.map Arc.bare)
    (h : ∀ v, total (fun a => ((a.flow : Int) - a.cost) * atVertex v a) arcs = 0) : IsFlow base arcs where
  bare := hb
  meets x := by
    have h := total_across_eq_zero h x
    have hc : totalCost base x = totalCost arcs x := by
      rw [totalCost_eq, totalCost_eq]
      exact total_eq_of_bare hb.symm fun _ => rfl
    rw [total_flow_sub_cost, ← totalCost_eq] at h
    rw [hc]
    linarith

theorem isFlow_of_meetsDemands (hb : arcs.map Arc.bare = base.map Arc.bare) (h : meetsDemands arcs) :
    IsFlow base arcs :=
  isFlow_of_total hb (balance_eq_zero h)

theorem isFlow_start : IsFlow arcs (start arcs) := by
  unfold start
  simp only
  split
  case isTrue h => exact isFlow_of_meetsDemands bare_transported h
  case isFalse => exact isFlow_plain

end Start

section Optimal

variable [BEq κ] [Hashable κ] [LawfulBEq κ] {labels : Labels κ} {rounds : Nat}

omit [LawfulBEq κ] in
theorem not_isNegative (h : ∀ s ∈ steps, Holds labels s) : ¬IsNegative steps cycle := by
  intro hn
  have ⟨v, hr⟩ := hn.route
  have := hr.le_add_weight (x := fun v => (labels.label v).distance) fun s hs => h s (hr.subset hs)
  have := hn.weight_neg
  linarith

theorem settled_ok {labels' : Labels κ} (hs : Sound (residual arcs) labels) (h : settled arcs labels = .ok labels') :
    ∀ s ∈ residual arcs, Holds labels' s :=
  settle_ok hs (fun _ _ => .inr (Nat.zero_le _)) (by omega) h

omit [LawfulBEq κ] in
theorem label_empty (v : κ) : ((∅ : Labels κ).label v).walk = [] := by
  simp [Labels.label]

-- Labels that are found from one start are found from any other.
theorem exists_shortest (h : ∀ cycle, ¬IsNegative (residual arcs) cycle) : ∃ labels, shortest arcs = .ok labels := by
  cases hs : shortest arcs
  case error => exact absurd (settle_error (.of_walk_eq_nil label_empty) hs) (h _)
  case ok labels => exact ⟨labels, rfl⟩

theorem label_restart (v : κ) : (labels.restart.label v).walk = [] := by
  simp only [Labels.restart, Labels.label, Std.HashMap.getD_map]
  cases labels[v]? <;> rfl

-- By induction on the rounds: each of them sends more, but never more than the cost of a placement.
theorem improve_spec (hf : IsFlow base arcs) (hx : Feasible base x) (hl : ∀ v, (labels.label v).walk = [])
    (hr : totalCost base x - sent Arc.length arcs < rounds) :
    IsFlow base (improve rounds arcs labels) ∧ ∀ cycle, ¬IsNegative (residual (improve rounds arcs labels)) cycle := by
  induction rounds generalizing arcs labels
  case zero =>
    have := hf.sent_length_le hx
    simp only [Nat.cast_zero] at hr
    linarith
  case succ rounds hi =>
    rw [improve]
    split
    case h_1 labels' hs =>
      exact ⟨hf, fun cycle => not_isNegative (settled_ok (.of_walk_eq_nil hl) hs)⟩
    case h_2 found hs =>
      have hn := settle_error (.of_walk_eq_nil hl) hs
      have ⟨amount, hc⟩ := exists_capacity? (hx.of_bare hf.bare) hn
      have ⟨hf, hlt⟩ := hf.push hn hc
      simp only [hc]
      exact hi hf label_restart (by push_cast at hr; linarith)

-- The distances of a residual graph are a placement, and arcs with flow are no longer than they have to be.
theorem coordinate_of_shortest (h : shortest arcs = .ok labels) : Feasible arcs (coordinate labels) ∧
    ∀ a ∈ arcs, 0 < a.flow → across (coordinate labels) a = a.length := by
  have hs := settled_ok (.of_walk_eq_nil label_empty) h
  have hf : Feasible arcs (coordinate labels) := fun a ha => by
    have ⟨i, hi⟩ := List.getElem?_of_mem ha
    have := hs ⟨a.tail, a.head, -a.length, i, true⟩ (mem_residual_iff.mpr ⟨a, hi, .inl ⟨rfl, rfl, rfl, rfl⟩⟩)
    simp only [Holds] at this
    simp only [coordinate]
    linarith
  refine ⟨hf, fun a ha hpos => le_antisymm ?_ (hf a ha)⟩
  have ⟨i, hi⟩ := List.getElem?_of_mem ha
  have := hs ⟨a.head, a.tail, a.length, i, false⟩ (mem_residual_iff.mpr ⟨a, hi, .inr ⟨rfl, hpos, rfl, rfl, rfl⟩⟩)
  simp only [Holds] at this
  simp only [across, coordinate]
  linarith

-- Without a cycle of arcs the flow of the costs can be improved until no cycle of negative weight is left.
theorem optimal_spec (h : Acyclic (Follows (arcs.map fun a => (a.tail, a.head)))) :
    IsFlow arcs (optimal arcs) ∧ ∃ labels, shortest (optimal arcs) = .ok labels := by
  have hf : IsFlow arcs (start arcs) := isFlow_start
  have ⟨labels, hl⟩ := exists_shortest fun cycle => hf.bare ▸ not_isNegative_bare h
  have hx : Feasible arcs (coordinate labels) :=
    (coordinate_of_shortest hl).left.of_bare (by simp [← hf.bare, Function.comp_def, Arc.bare])
  have hc : totalCost (start arcs) (coordinate labels) = totalCost arcs (coordinate labels) := by
    rw [totalCost_eq, totalCost_eq]
    exact total_eq_of_bare hf.bare fun _ => rfl
  have hr : totalCost arcs (coordinate labels) - sent Arc.length (start arcs) < roundBound (start arcs) := by
    simp only [roundBound, foldr_sent]
    rw [show ((start arcs).map fun a => { a with flow := 0 }) = (start arcs).map Arc.bare from rfl, hl]
    simp only [hc]
    omega
  have ⟨hf, hn⟩ := improve_spec hf hx label_empty hr
  exact ⟨hf, exists_shortest hn⟩

end Optimal

end LayeredDiagram.Flow
