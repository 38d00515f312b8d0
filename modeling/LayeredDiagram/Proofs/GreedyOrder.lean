import LayeredDiagram.Proofs.ArcWeights
import LayeredDiagram.Proofs.Orientation
/-!
The order of the vertices in exact arithmetic. The weights that are kept with the vertices are those of the arcs
between vertices without a place, so that every vertex that gets a place has no arc out of it or into it, or the
largest surplus. Hence an order without backward arcs is found whenever there is one, and in any case at most half
of the weight points backwards.
-/

namespace LayeredDiagram.Feedback

variable {κ : Type} {arcs : List (Arc κ Rat)} {a : Arc κ Rat} {p q : κ → κ → Prop}

section Tracking

variable [DecidableEq κ] {ps : List (Pending κ Rat)} {pending : List κ} {u v : κ}

-- The weight of the arcs from a vertex to some vertices, and from them to it.
noncomputable def outgoing (arcs : List (Arc κ Rat)) (pending : List κ) (v : κ) : Rat :=
  total arcs fun s t => s = v ∧ t ∈ pending

noncomputable def incoming (arcs : List (Arc κ Rat)) (pending : List κ) (v : κ) : Rat :=
  total arcs fun s t => t = v ∧ s ∈ pending

omit [DecidableEq κ] in
theorem sum_filter_eq_total (arcs : List (Arc κ Rat)) (p : κ → κ → Prop) [∀ s t, Decidable (p s t)] :
    Scalar.sum ((arcs.filter fun a => p a.source a.target).map (·.weight)) = total arcs p := by
  rw [Scalar.sum, ← List.sum_eq_foldl]
  induction arcs
  case nil => rfl
  case cons a arcs hi =>
    rw [total_cons, ← hi]
    by_cases hp : p a.source a.target
    case pos => simp [hp, total_singleton_of hp]
    case neg => simp [hp, total_singleton_of_not hp]

theorem mem_or_eq (hv : v ∈ pending) : u ∈ pending ↔ u ∈ pending.filter (· ≠ v) ∨ u = v := by
  simp only [List.mem_filter, decide_eq_true_eq]
  by_cases h : u = v
  case pos => simp [h, hv]
  case neg => simp [h]

theorem outgoing_filter (hv : v ∈ pending) (u : κ) :
    outgoing arcs (pending.filter (· ≠ v)) u = outgoing arcs pending u - total arcs fun s t => s = u ∧ t = v := by
  have hsplit : outgoing arcs pending u =
      outgoing arcs (pending.filter (· ≠ v)) u + total arcs fun s t => s = u ∧ t = v := by
    rw [outgoing, outgoing, ← total_or fun a _ h he => by simp [he.right] at h]
    exact total_congr fun a _ => by rw [mem_or_eq hv, and_or_left]
  rw [hsplit, add_sub_cancel_right]

theorem incoming_filter (hv : v ∈ pending) (u : κ) :
    incoming arcs (pending.filter (· ≠ v)) u = incoming arcs pending u - total arcs fun s t => s = v ∧ t = u := by
  have hsplit : incoming arcs pending u =
      incoming arcs (pending.filter (· ≠ v)) u + total arcs fun s t => s = v ∧ t = u := by
    rw [incoming, incoming, ← total_or fun a _ h he => by simp [he.left] at h]
    exact total_congr fun a _ => by rw [mem_or_eq hv, and_or_left, and_comm (a := a.source = v)]
  rw [hsplit, add_sub_cancel_right]

abbrev vertices (ps : List (Pending κ Rat)) : List κ :=
  ps.map (·.vertex)

-- The weights kept with the vertices without a place are those of the arcs between them.
structure Tracks (arcs : List (Arc κ Rat)) (ps : List (Pending κ Rat)) : Prop where
  nodup : (vertices ps).Nodup
  outgoing_eq : ∀ p ∈ ps, p.outgoing = outgoing arcs (vertices ps) p.vertex
  incoming_eq : ∀ p ∈ ps, p.incoming = incoming arcs (vertices ps) p.vertex

theorem tracks_all {nodes : List κ} (hn : nodes.Nodup) (hs : ∀ a ∈ arcs, a.source ∈ nodes)
    (ht : ∀ a ∈ arcs, a.target ∈ nodes) : Tracks arcs (Pending.all (merge arcs) nodes) := by
  have hv : vertices (Pending.all (merge arcs) nodes) = nodes := by simp [vertices, Pending.all, Function.comp_def]
  refine ⟨by rwa [hv], fun p hp => ?outgoing, fun p hp => ?incoming⟩
  case outgoing =>
    obtain ⟨v, _, rfl⟩ := List.mem_map.mp hp
    rw [hv, outgoing]
    refine (sum_filter_eq_total (merge arcs) fun s _ => s = v).trans ((total_merge arcs _).trans ?_)
    exact total_congr fun a ha => by simp [ht a ha]
  case incoming =>
    obtain ⟨v, _, rfl⟩ := List.mem_map.mp hp
    rw [hv, incoming]
    refine (sum_filter_eq_total (merge arcs) fun _ t => t = v).trans ((total_merge arcs _).trans ?_)
    exact total_congr fun a ha => by simp [hs a ha]

theorem vertices_remove (merged : List (Arc κ Rat)) (v : κ) (ps : List (Pending κ Rat)) :
    vertices (Pending.remove merged v ps) = (vertices ps).filter (· ≠ v) := by
  simp [vertices, Pending.remove, List.filter_map, Function.comp_def]

theorem Tracks.remove (h : Tracks arcs ps) (hv : v ∈ vertices ps) : Tracks arcs (Pending.remove (merge arcs) v ps) := by
  have weight_eq (u w : κ) : (weight? (merge arcs) u w).getD 0 = total arcs fun s t => s = u ∧ t = w := by
    rw [getD_weight? (nodup_ends_merge arcs), total_merge]
  refine ⟨?nodup, fun p hp => ?outgoing, fun p hp => ?incoming⟩
  case nodup => exact vertices_remove (merge arcs) v ps ▸ h.nodup.filter _
  case outgoing =>
    obtain ⟨q, hq, rfl⟩ := List.mem_map.mp hp
    rw [vertices_remove, outgoing_filter hv, ← weight_eq, ← h.outgoing_eq q (List.mem_of_mem_filter hq)]
    cases weight? (merge arcs) q.vertex v <;> simp
  case incoming =>
    obtain ⟨q, hq, rfl⟩ := List.mem_map.mp hp
    rw [vertices_remove, incoming_filter hv, ← weight_eq, ← h.incoming_eq q (List.mem_of_mem_filter hq)]
    cases weight? (merge arcs) v q.vertex <;> simp

end Tracking

section Choices

variable [DecidableEq κ] {pending l : List κ} {u v : κ}

-- Orders of some vertices that put them one after the other before or behind all others: behind them only without
-- weight to the others, before them only without weight from the others or, where no vertex lacks either, with the
-- largest surplus.
inductive Greedy (arcs : List (Arc κ Rat)) : List κ → List κ → Prop
  | nil : Greedy arcs [] []
  | sink {pending l : List κ} {v : κ} (hv : v ∈ pending) (ho : outgoing arcs pending v ≤ 1e-9)
      (h : Greedy arcs (pending.filter (· ≠ v)) l) : Greedy arcs pending (l ++ [v])
  | source {pending l : List κ} {v : κ} (hv : v ∈ pending) (hi : incoming arcs pending v ≤ 1e-9)
      (h : Greedy arcs (pending.filter (· ≠ v)) l) : Greedy arcs pending (v :: l)
  | best {pending l : List κ} {v : κ} (hv : v ∈ pending)
      (hm : ∀ u ∈ pending, 1e-9 < outgoing arcs pending u ∧ 1e-9 < incoming arcs pending u)
      (hb : ∀ u ∈ pending, outgoing arcs pending u - incoming arcs pending u ≤
        outgoing arcs pending v - incoming arcs pending v)
      (h : Greedy arcs (pending.filter (· ≠ v)) l) : Greedy arcs pending (v :: l)

theorem Greedy.mem_iff (h : Greedy arcs pending l) : u ∈ l ↔ u ∈ pending := by
  induction h
  case nil => rfl
  case sink hv _ _ hi => rw [List.mem_append, List.mem_singleton, hi, mem_or_eq hv]
  case source hv _ _ hi => rw [List.mem_cons, hi, mem_or_eq hv, or_comm]
  case best hv _ _ _ hi => rw [List.mem_cons, hi, mem_or_eq hv, or_comm]

-- Where a vertex put in front or behind stands.
theorem idxOf_cons_lt_iff (hu : u ≠ v) {w : κ} (hw : w ≠ v) :
    (v :: l).idxOf u < (v :: l).idxOf w ↔ l.idxOf u < l.idxOf w := by
  rw [List.idxOf_cons_ne _ hu.symm, List.idxOf_cons_ne _ hw.symm, Nat.succ_lt_succ_iff]

theorem idxOf_concat_lt_iff (hu : u ∈ l) {w : κ} (hw : w ∈ l) :
    (l ++ [v]).idxOf u < (l ++ [v]).idxOf w ↔ l.idxOf u < l.idxOf w := by
  rw [List.idxOf_append_of_mem hu, List.idxOf_append_of_mem hw]

theorem idxOf_concat_lt (hu : u ∈ l) (hv : v ∉ l) : (l ++ [v]).idxOf u < (l ++ [v]).idxOf v := by
  rw [List.idxOf_append_of_mem hu, List.idxOf_append_of_notMem hv]
  have := List.idxOf_lt_length_of_mem hu
  omega

-- The weight of the arcs between some vertices, and of those among them that point backward in an order.
noncomputable def inside (arcs : List (Arc κ Rat)) (pending : List κ) : Rat :=
  total arcs fun s t => s ∈ pending ∧ t ∈ pending

noncomputable def backward (arcs : List (Arc κ Rat)) (pending l : List κ) : Rat :=
  total arcs fun s t => (s ∈ pending ∧ t ∈ pending) ∧ l.idxOf t < l.idxOf s

-- The arcs between some vertices are those between the others, those out of one of them and those into it.
theorem total_inside (hl : ∀ a ∈ arcs, a.source ≠ a.target) (hv : v ∈ pending) (p : κ → κ → Prop) :
    (total arcs fun s t => (s ∈ pending ∧ t ∈ pending) ∧ p s t) =
      (total arcs fun s t => (s ∈ pending.filter (· ≠ v) ∧ t ∈ pending.filter (· ≠ v)) ∧ p s t) +
        ((total arcs fun s t => (s = v ∧ t ∈ pending) ∧ p s t) + total arcs fun s t => (t = v ∧ s ∈ pending) ∧ p s t) := by
  rw [← total_or fun a ha hs ht => hl a ha (hs.left.left.trans ht.left.left.symm), ← total_or fun a _ h ho => ?disjoint]
  case disjoint =>
    simp only [List.mem_filter, decide_eq_true_eq] at h
    rcases ho with ho | ho
    · exact h.left.left.right ho.left.left
    · exact h.left.right.right ho.left.left
  refine total_congr fun a ha => ?_
  have := hl a ha
  simp only [List.mem_filter, decide_eq_true_eq]
  grind

theorem inside_eq (hl : ∀ a ∈ arcs, a.source ≠ a.target) (hv : v ∈ pending) : inside arcs pending =
    inside arcs (pending.filter (· ≠ v)) + (outgoing arcs pending v + incoming arcs pending v) := by
  have := total_inside hl hv fun _ _ => True
  simp only [and_true] at this
  exact this

-- All arcs into the first vertex point backward, and none out of it.
theorem backward_cons (hl : ∀ a ∈ arcs, a.source ≠ a.target) (hv : v ∈ pending) (l : List κ) :
    backward arcs pending (v :: l) = backward arcs (pending.filter (· ≠ v)) l + incoming arcs pending v := by
  have hout : (total arcs fun s t => (s = v ∧ t ∈ pending) ∧ (v :: l).idxOf t < (v :: l).idxOf s) = 0 := by
    refine total_eq_zero fun a _ ⟨hs, hlt⟩ => ?_
    rw [hs.left, List.idxOf_cons_self] at hlt
    exact Nat.not_lt_zero _ hlt
  rw [backward, total_inside hl hv, hout, zero_add, backward, incoming]
  refine congrArg₂ (· + ·) (total_congr fun a _ => and_congr_right fun ⟨hs, ht⟩ => ?others)
    (total_congr fun a ha => and_iff_left_of_imp fun ⟨ht, _⟩ => ?into)
  case others =>
    simp only [List.mem_filter, decide_eq_true_eq] at hs ht
    exact idxOf_cons_lt_iff ht.right hs.right
  case into =>
    rw [ht, List.idxOf_cons_self, List.idxOf_cons_ne _ (ht ▸ (hl a ha).symm)]
    exact Nat.succ_pos _

-- All arcs out of the last vertex point backward, and none into it.
theorem backward_concat (hl : ∀ a ∈ arcs, a.source ≠ a.target) (hv : v ∈ pending)
    (hm : ∀ u, u ∈ l ↔ u ∈ pending.filter (· ≠ v)) :
    backward arcs pending (l ++ [v]) = backward arcs (pending.filter (· ≠ v)) l + outgoing arcs pending v := by
  have hvl : v ∉ l := by simp [hm]
  have mem_of_ne {u : κ} (hu : u ∈ pending) (hne : u ≠ v) : u ∈ l := (hm u).mpr (List.mem_filter.mpr ⟨hu, by simpa using hne⟩)
  have hin : (total arcs fun s t => (t = v ∧ s ∈ pending) ∧ (l ++ [v]).idxOf t < (l ++ [v]).idxOf s) = 0 := by
    refine total_eq_zero fun a ha ⟨ht, hlt⟩ => ?_
    rw [ht.left] at hlt
    exact hlt.not_gt (idxOf_concat_lt (mem_of_ne ht.right (ht.left ▸ hl a ha)) hvl)
  rw [backward, total_inside hl hv, hin, add_zero, backward, outgoing]
  refine congrArg₂ (· + ·) (total_congr fun a _ => and_congr_right fun ⟨hs, ht⟩ => ?others)
    (total_congr fun a ha => and_iff_left_of_imp fun ⟨hs, ht⟩ => ?out)
  case others => exact idxOf_concat_lt_iff ((hm _).mpr ht) ((hm _).mpr hs)
  case out =>
    rw [hs]
    exact idxOf_concat_lt (mem_of_ne ht (hs ▸ (hl a ha).symm)) hvl

omit [DecidableEq κ] in
-- The surpluses add up to nothing, so that the largest one is not negative.
theorem incoming_le_outgoing (hn : pending.Nodup) (hv : v ∈ pending)
    (hb : ∀ u ∈ pending, outgoing arcs pending u - incoming arcs pending u ≤
      outgoing arcs pending v - incoming arcs pending v) : incoming arcs pending v ≤ outgoing arcs pending v := by
  have hout : (pending.map (outgoing arcs pending)).sum = inside arcs pending :=
    sum_total_at (fun s _ => s) hn fun _ t => t ∈ pending
  have hin : (pending.map (incoming arcs pending)).sum = inside arcs pending :=
    (sum_total_at (fun _ t => t) hn fun s _ => s ∈ pending).trans (total_congr fun a _ => and_comm)
  have hzero : (pending.map fun u => outgoing arcs pending u - incoming arcs pending u).sum = 0 := by
    have hadd := List.sum_map_add (l := pending) (f := fun u => outgoing arcs pending u - incoming arcs pending u)
      (g := incoming arcs pending)
    simp only [sub_add_cancel] at hadd
    linarith
  have hle := List.sum_le_card_nsmul (pending.map fun u => outgoing arcs pending u - incoming arcs pending u)
    (outgoing arcs pending v - incoming arcs pending v) fun x hx => by
      obtain ⟨u, hu, rfl⟩ := List.mem_map.mp hx
      exact hb u hu
  rw [hzero, List.length_map] at hle
  have hpos : 0 < pending.length := List.length_pos_of_mem hv
  have := (nsmul_nonneg_iff hpos.ne').mp hle
  linarith

omit [DecidableEq κ] in
theorem not_of_total_le (hw : ∀ a ∈ arcs, 1e-9 < a.weight) (h : total arcs p ≤ 1e-9) :
    ∀ a ∈ arcs, ¬p a.source a.target := by
  intro a ha hp
  have hnonneg : ∀ b ∈ arcs, 0 ≤ b.weight := fun b hb => le_trans (by norm_num) (hw b hb).le
  exact absurd ((hw a ha).trans_le (weight_le_total hnonneg ha hp)) h.not_gt

-- By induction on the choices: none of them adds more weight backward than forward.
theorem Greedy.two_mul_backward_le (hw : ∀ a ∈ arcs, 1e-9 < a.weight) (hl : ∀ a ∈ arcs, a.source ≠ a.target)
    (h : Greedy arcs pending l) (hn : pending.Nodup) : 2 * backward arcs pending l ≤ inside arcs pending := by
  have hnonneg (p : κ → κ → Prop) : 0 ≤ total arcs p :=
    total_nonneg (fun a ha => le_trans (by norm_num) (hw a ha).le) p
  induction h
  case nil => simp [backward, inside, total]
  case sink pending l v hv ho h hi =>
    have hi := hi (hn.filter _)
    have hout : outgoing arcs pending v = 0 := total_eq_zero (not_of_total_le hw ho)
    have hin : 0 ≤ incoming arcs pending v := hnonneg _
    rw [backward_concat hl hv fun _ => h.mem_iff, inside_eq hl hv]
    linarith
  case source pending l v hv hin _ hi =>
    have hi := hi (hn.filter _)
    have hin : incoming arcs pending v = 0 := total_eq_zero (not_of_total_le hw hin)
    have hout : 0 ≤ outgoing arcs pending v := hnonneg _
    rw [backward_cons hl hv, inside_eq hl hv]
    linarith
  case best pending l v hv _ hb _ hi =>
    have hi := hi (hn.filter _)
    have hle := incoming_le_outgoing hn hv hb
    rw [backward_cons hl hv, inside_eq hl hv]
    linarith

omit [DecidableEq κ] in
-- Among vertices of a relation without cycles, one leads to none of them.
theorem exists_last {r : κ → κ → Prop} (ha : Acyclic r) (hn : pending ≠ []) :
    ∃ v ∈ pending, ∀ u ∈ pending, ¬Relation.TransGen r v u := by
  induction pending
  case nil => exact absurd rfl hn
  case cons v pending hi =>
    by_cases hp : pending = []
    case pos => exact ⟨v, by simp, by simpa [hp] using ha v⟩
    case neg =>
      have ⟨w, hw, hlast⟩ := hi hp
      by_cases hwv : Relation.TransGen r w v
      case neg => exact ⟨w, List.mem_cons_of_mem _ hw, List.forall_mem_cons.mpr ⟨hwv, hlast⟩⟩
      case pos => exact ⟨v, by simp, List.forall_mem_cons.mpr ⟨ha v, fun u hu hvu => hlast u hu (hwv.trans hvu)⟩⟩

-- Without cycles there is always a vertex without arcs to the others, so that no vertex is chosen for its surplus;
-- and what is chosen for lack of arcs has no arc backward.
theorem Greedy.idxOf_lt_idxOf (hw : ∀ a ∈ arcs, 1e-9 < a.weight)
    (ha : Acyclic fun u v => ∃ a ∈ arcs, a.source = u ∧ a.target = v) (h : Greedy arcs pending l) :
    ∀ a ∈ arcs, a.source ∈ pending → a.target ∈ pending → l.idxOf a.source < l.idxOf a.target := by
  have hne : ∀ a ∈ arcs, a.source ≠ a.target := fun a hm he => ha a.source (.single ⟨a, hm, rfl, he.symm⟩)
  intro a hm hs ht
  induction h
  case nil => simp at hs
  case sink pending l v hv ho h hi =>
    have hvl : v ∉ l := by simp [h.mem_iff]
    have hsv : a.source ≠ v := fun he => not_of_total_le hw ho a hm ⟨he, ht⟩
    have hsl : a.source ∈ pending.filter (· ≠ v) := by simp [hs, hsv]
    by_cases htv : a.target = v
    case pos => exact htv ▸ idxOf_concat_lt (h.mem_iff.mpr hsl) (htv ▸ hvl)
    case neg =>
      have htl : a.target ∈ pending.filter (· ≠ v) := by simp [ht, htv]
      exact (idxOf_concat_lt_iff (h.mem_iff.mpr hsl) (h.mem_iff.mpr htl)).mpr (hi hsl htl)
  case source pending l v hv hin h hi =>
    have htv : a.target ≠ v := fun he => not_of_total_le hw hin a hm ⟨he, hs⟩
    by_cases hsv : a.source = v
    case pos =>
      rw [hsv, List.idxOf_cons_self, List.idxOf_cons_ne _ htv.symm]
      exact Nat.succ_pos _
    case neg => exact (idxOf_cons_lt_iff hsv htv).mpr (hi (by simp [hs, hsv]) (by simp [ht, htv]))
  case best pending l v hv hmin _ _ _ =>
    have ⟨w, hw, hlast⟩ := exists_last ha (List.ne_nil_of_mem hv)
    have hout : outgoing arcs pending w = 0 :=
      total_eq_zero fun a ha hp => hlast a.target hp.right (.single ⟨a, ha, hp.left, rfl⟩)
    have := hout ▸ (hmin w hw).left
    norm_num at this

end Choices

section Peeling

variable [DecidableEq κ] {ps : List (Pending κ Rat)} {nodes vs l : List κ} {s t : State κ Rat}

-- What is left after some vertices are taken out, each to its place among those left then; `put` is where.
structure Peeled (arcs : List (Arc κ Rat)) (put : κ → List κ → List κ) (ps : List (Pending κ Rat))
    (r : List κ × List (Pending κ Rat)) : Prop where
  tracks : Tracks arcs r.2
  sublist : (vertices r.2).Sublist (vertices ps)
  length_lt : r.1 ≠ [] → r.2.length < ps.length
  greedy : ∀ l, Greedy arcs (vertices r.2) l → Greedy arcs (vertices ps) (r.1.foldr put l)

theorem length_remove_lt {p : Pending κ Rat} (hp : p ∈ ps) :
    (Pending.remove (merge arcs) p.vertex ps).length < ps.length := by
  rw [Pending.remove, List.length_map, List.length_filter_lt_length_iff_exists]
  exact ⟨p, hp, by simp⟩

theorem Peeled.of_remove {put : κ → List κ → List κ} {p : Pending κ Rat} {r : List κ × List (Pending κ Rat)}
    (h : Peeled arcs put (Pending.remove (merge arcs) p.vertex ps) r) (hp : p ∈ ps)
    (hput : ∀ l, Greedy arcs ((vertices ps).filter (· ≠ p.vertex)) l → Greedy arcs (vertices ps) (put p.vertex l)) :
    Peeled arcs put ps (p.vertex :: r.1, r.2) where
  tracks := h.tracks
  sublist := h.sublist.trans (vertices_remove (merge arcs) p.vertex ps ▸ List.filter_sublist)
  length_lt _ := by
    have hle := h.sublist.length_le
    have hlt : (Pending.remove (merge arcs) p.vertex ps).length < ps.length := length_remove_lt hp
    simp only [List.length_map] at hle
    exact hle.trans_lt hlt
  greedy l hl := hput _ (vertices_remove (merge arcs) p.vertex ps ▸ h.greedy l hl)

theorem peeled_peel {test : Pending κ Rat → Bool} {put : κ → List κ → List κ}
    (hput : ∀ ps, Tracks arcs ps → ∀ p ∈ ps, test p → ∀ l, Greedy arcs ((vertices ps).filter (· ≠ p.vertex)) l →
      Greedy arcs (vertices ps) (put p.vertex l)) (h : Tracks arcs ps) (vs : List κ) :
    Peeled arcs put ps (peel (merge arcs) test vs ps) := by
  induction vs generalizing ps
  case nil => exact ⟨h, .refl _, fun hn => absurd rfl hn, fun l hl => hl⟩
  case cons v vs hi =>
    rw [peel]
    split
    case h_1 p hf =>
      have hp := List.mem_of_find?_eq_some hf
      obtain rfl : p.vertex = v := by simpa using List.find?_some hf
      split
      case isTrue ht => exact (hi (h.remove (List.mem_map_of_mem hp))).of_remove hp (hput ps h p hp ht)
      case isFalse => exact hi h
    case h_2 => exact hi h

-- A pass that takes out nothing has tested all vertices.
theorem peel_eq_of_isEmpty {merged : List (Arc κ Rat)} {test : Pending κ Rat → Bool}
    (h : (peel merged test vs ps).1 = []) : peel merged test vs ps = ([], ps) ∧
      ∀ v ∈ vs, ∀ p, ps.find? (·.vertex = v) = some p → test p = false := by
  induction vs
  case nil => exact ⟨rfl, by simp⟩
  case cons v vs hi =>
    rw [peel] at h ⊢
    split at h
    case h_1 p hf =>
      split at h
      case isTrue => cases h
      case isFalse ht =>
        have ⟨he, hv⟩ := hi h
        refine ⟨by simpa [hf, ht] using he, List.forall_mem_cons.mpr ⟨fun q hq => ?_, hv⟩⟩
        obtain rfl := Option.some.inj (hf.symm.trans hq)
        simpa using ht
    case h_2 hf =>
      have ⟨he, hv⟩ := hi h
      refine ⟨by simpa [hf] using he, List.forall_mem_cons.mpr ⟨fun q hq => ?_, hv⟩⟩
      simp [hf] at hq

theorem eq_false_of_peel {merged : List (Arc κ Rat)} {test : Pending κ Rat → Bool}
    (h : (peel merged test vs ps).1 = []) (hn : (vertices ps).Nodup) (hs : vertices ps ⊆ vs) :
    ∀ p ∈ ps, test p = false := by
  intro p hp
  have hsome : (ps.find? (·.vertex = p.vertex)).isSome := List.find?_isSome.mpr ⟨p, hp, by simp⟩
  obtain ⟨q, hq⟩ := Option.isSome_iff_exists.mp hsome
  have hqp : q.vertex = p.vertex := by simpa using List.find?_some hq
  have heq : q = p := List.inj_on_of_nodup_map hn (List.mem_of_find?_eq_some hq) hp hqp
  exact (peel_eq_of_isEmpty h).right p.vertex (hs (List.mem_map_of_mem hp)) p (heq ▸ hq)

end Peeling

section Rounds

variable [DecidableEq κ] {ps : List (Pending κ Rat)} {nodes l : List κ} {s t u : State κ Rat} {rounds : Nat}

-- From one state to a later one: what is still to come between front and back is chosen greedily.
structure Continues (arcs : List (Arc κ Rat)) (s t : State κ Rat) : Prop where
  tracks : Tracks arcs t.pending
  sublist : (vertices t.pending).Sublist (vertices s.pending)
  greedy : ∀ l, Greedy arcs (vertices t.pending) l → ∃ m, Greedy arcs (vertices s.pending) m ∧
    s.front ++ m ++ s.back.reverse = t.front ++ l ++ t.back.reverse

theorem Continues.refl (h : Tracks arcs s.pending) : Continues arcs s s :=
  ⟨h, .refl _, fun l hl => ⟨l, hl, rfl⟩⟩

theorem Continues.trans (h₁ : Continues arcs s t) (h₂ : Continues arcs t u) : Continues arcs s u where
  tracks := h₂.tracks
  sublist := h₂.sublist.trans h₁.sublist
  greedy l hl :=
    have ⟨_, hm, he⟩ := h₂.greedy l hl
    have ⟨k, hk, he'⟩ := h₁.greedy _ hm
    ⟨k, hk, he'.trans he⟩

-- Sinks go behind all that is left, sources before it.
theorem peeled_sinks (h : Tracks arcs ps) (vs : List κ) :
    Peeled arcs (fun v l => l ++ [v]) ps (peel (merge arcs) isSink vs ps) := by
  refine peeled_peel (fun ps h p hp ht l hl => .sink (List.mem_map_of_mem hp) ?_ hl) h vs
  rw [← h.outgoing_eq p hp]
  simpa [isSink] using ht

theorem peeled_sources (h : Tracks arcs ps) (vs : List κ) :
    Peeled arcs List.cons ps (peel (merge arcs) isSource vs ps) := by
  refine peeled_peel (fun ps h p hp ht l hl => .source (List.mem_map_of_mem hp) ?_ hl) h vs
  rw [← h.incoming_eq p hp]
  simpa [isSource] using ht

-- One round of taking out sinks and sources.
theorem continues_round (h : Tracks arcs s.pending) (nodes : List κ) :
    let sinks := peel (merge arcs) isSink nodes s.pending
    let sources := peel (merge arcs) isSource nodes sinks.2
    Continues arcs s ⟨s.front ++ sources.1, s.back ++ sinks.1, sources.2⟩ ∧
      (¬(sinks.1.isEmpty && sources.1.isEmpty) → sources.2.length < s.pending.length) := by
  intro sinks sources
  have h₁ : Peeled arcs _ s.pending sinks := peeled_sinks h nodes
  have h₂ : Peeled arcs _ sinks.2 sources := peeled_sources h₁.tracks nodes
  have foldr_concat (vs l : List κ) : vs.foldr (fun v l => l ++ [v]) l = l ++ vs.reverse := by
    induction vs
    case nil => simp
    case cons v vs hi => simp [hi]
  refine ⟨⟨h₂.tracks, h₂.sublist.trans h₁.sublist, fun l hl => ?_⟩, fun hne => ?_⟩
  · refine ⟨_, h₁.greedy _ (h₂.greedy l hl), ?_⟩
    rw [foldr_concat, List.foldr_cons_eq_append]
    simp
  · have hle₁ := h₁.sublist.length_le
    have hle₂ := h₂.sublist.length_le
    simp only [List.length_map] at hle₁ hle₂
    simp only [Bool.and_eq_true, List.isEmpty_iff, not_and_or] at hne
    rcases hne with hne | hne
    · exact hle₂.trans_lt (h₁.length_lt hne)
    · exact (h₂.length_lt hne).trans_le hle₁

-- Enough rounds leave no sinks and no sources.
theorem continues_settle (h : Tracks arcs s.pending) (hs : vertices s.pending ⊆ nodes) (hr : s.pending.length < rounds) :
    Continues arcs s (settle (merge arcs) nodes rounds s) ∧
      ∀ p ∈ (settle (merge arcs) nodes rounds s).pending, isSink p = false ∧ isSource p = false := by
  induction rounds generalizing s
  case zero => omega
  case succ rounds hi =>
    rw [settle]
    have ⟨hc, hlt⟩ := continues_round h nodes
    split
    case isTrue he =>
      simp only [Bool.and_eq_true, List.isEmpty_iff] at he
      have ⟨hsame, _⟩ := peel_eq_of_isEmpty he.left
      have hsources : (peel (merge arcs) isSource nodes s.pending).1 = [] := by simpa [hsame] using he.right
      exact ⟨.refl h, fun p hp =>
        ⟨eq_false_of_peel he.left h.nodup hs p hp, eq_false_of_peel hsources h.nodup hs p hp⟩⟩
    case isFalse he =>
      have ⟨hc', hdone⟩ := hi hc.tracks (List.Subset.trans hc.sublist.subset hs) (by have := hlt he; simp only; omega)
      exact ⟨hc.trans hc', hdone⟩

omit [DecidableEq κ] in
theorem best?_spec {p : Pending κ Rat} (h : best? ps = some p) : p ∈ ps ∧ ∀ q ∈ ps, surplus q ≤ surplus p := by
  have foldl_spec (ps : List (Pending κ Rat)) (b : Pending κ Rat) :
      let r := ps.foldl (fun b q => if surplus b < surplus q then q else b) b
      (r = b ∨ r ∈ ps) ∧ surplus b ≤ surplus r ∧ ∀ q ∈ ps, surplus q ≤ surplus r := by
    induction ps generalizing b
    case nil => simp
    case cons q ps hi =>
      rw [List.foldl_cons]
      split
      case isTrue hlt =>
        have ⟨hm, hle, hall⟩ := hi q
        exact ⟨.inr (List.mem_cons.mpr hm), hlt.le.trans hle, List.forall_mem_cons.mpr ⟨hle, hall⟩⟩
      case isFalse hlt =>
        have ⟨hm, hle, hall⟩ := hi b
        exact ⟨hm.imp_right (List.mem_cons_of_mem _), hle, List.forall_mem_cons.mpr ⟨(not_lt.mp hlt).trans hle, hall⟩⟩
  cases ps
  case nil => cases h
  case cons q ps =>
    obtain rfl := Option.some.inj h
    have ⟨hm, hle, hall⟩ := foldl_spec ps q
    exact ⟨List.mem_cons.mpr hm, List.forall_mem_cons.mpr ⟨hle, hall⟩⟩

-- Where no sinks and no sources are left, the vertex with the largest surplus goes before all others.
theorem continues_best {p : Pending κ Rat} (h : Tracks arcs t.pending)
    (hdone : ∀ q ∈ t.pending, isSink q = false ∧ isSource q = false) (hp : p ∈ t.pending)
    (hmax : ∀ q ∈ t.pending, surplus q ≤ surplus p) : Continues arcs t
      { t with front := t.front ++ [p.vertex], pending := Pending.remove (merge arcs) p.vertex t.pending } := by
  have hv : p.vertex ∈ vertices t.pending := List.mem_map_of_mem hp
  refine ⟨h.remove hv, vertices_remove (merge arcs) p.vertex _ ▸ List.filter_sublist, fun l hl => ?_⟩
  refine ⟨p.vertex :: l, .best hv (fun u hu => ?_) (fun u hu => ?_) (vertices_remove (merge arcs) p.vertex _ ▸ hl), by simp⟩
  · obtain ⟨q, hq, rfl⟩ := List.mem_map.mp hu
    rw [← h.outgoing_eq q hq, ← h.incoming_eq q hq]
    simpa [isSink, isSource] using hdone q hq
  · obtain ⟨q, hq, rfl⟩ := List.mem_map.mp hu
    rw [← h.outgoing_eq q hq, ← h.incoming_eq q hq, ← h.outgoing_eq p hp, ← h.incoming_eq p hp]
    exact hmax q hq

theorem continues_run (h : Tracks arcs s.pending) (hs : vertices s.pending ⊆ nodes) (hl : s.pending.length ≤ nodes.length)
    (hr : s.pending.length < rounds) : Continues arcs s (run (merge arcs) nodes rounds s) ∧
      (run (merge arcs) nodes rounds s).pending = [] := by
  induction rounds generalizing s
  case zero => omega
  case succ rounds hi =>
    rw [run]
    have henough : s.pending.length < nodes.length + 1 := by omega
    have ⟨hc, hdone⟩ := continues_settle h hs henough
    generalize settle (merge arcs) nodes (nodes.length + 1) s = t at hc hdone
    have hlength := hc.sublist.length_le
    simp only [List.length_map] at hlength
    cases hb : best? t.pending
    case none =>
      have hnil : t.pending = [] := by
        cases hp : t.pending
        case nil => rfl
        case cons => simp [best?, hp] at hb
      exact ⟨hc, hnil⟩
    case some p =>
      have ⟨hp, hmax⟩ := best?_spec hb
      have hnext := continues_best hc.tracks hdone hp hmax
      have hlt : (Pending.remove (merge arcs) p.vertex t.pending).length < t.pending.length := length_remove_lt hp
      have ⟨hrun, hnil⟩ := hi hnext.tracks
        (List.Subset.trans hnext.sublist.subset (List.Subset.trans hc.sublist.subset hs))
        (by simp only; omega) (by simp only; omega)
      exact ⟨hc.trans (hnext.trans hrun), hnil⟩

-- The order in which vertices are placed is greedy.
theorem greedy_order (hn : nodes.Nodup) (hs : ∀ a ∈ arcs, a.source ∈ nodes) (ht : ∀ a ∈ arcs, a.target ∈ nodes) :
    Greedy arcs nodes (order nodes arcs) := by
  have hv : vertices (Pending.all (merge arcs) nodes) = nodes := by simp [vertices, Pending.all, Function.comp_def]
  have hlength : (Pending.all (merge arcs) nodes).length = nodes.length := by simp [Pending.all]
  have henough : (Pending.all (merge arcs) nodes).length < nodes.length + 1 := by omega
  have ⟨hc, hnil⟩ := continues_run (s := ⟨[], [], Pending.all (merge arcs) nodes⟩) (tracks_all hn hs ht)
    (by rw [hv]; exact List.Subset.refl _) hlength.le henough
  have ⟨m, hm, he⟩ := hc.greedy [] (by rw [hnil]; exact .nil)
  rw [hv] at hm
  have horder : order nodes arcs = m := by simpa [order] using he.symm
  rwa [horder]

end Rounds

end LayeredDiagram.Feedback
