import LayeredDiagram.Proofs.Placement
/-!
Room above and below ranks for the groups that begin and end there. What holds above holds below as well, so both
are cases of a side: every group ends on some rank, and one step is kept for each of the groups around an item that
end on the rank of the item.
-/

namespace LayeredDiagram

open LayeredDiagram.Group

variable {g : SizedGraph Rat} {place : String → Nat} {s : Solution Rat} {entries : List Entry} {a : Arrangement Rat}
variable {e f : Entry} {i : Item Rat} {r k : Nat} {extreme : String → Nat} {reach : Nat → Rat} {step : Rat}

-- The most groups around one item of a rank that end on that rank.
def most (extreme : String → Nat) (layer : List (Item Rat)) : Nat :=
  ((layer.map fun i => (i.path.filter fun g => extreme g == i.rank).length).max?).getD 0

-- How many of the groups around an item, from a given one inwards, end on the rank of the item.
def ending (extreme : String → Nat) (e : Entry) (i : Item Rat) : Nat :=
  ((i.path.drop (e.path.length - 1)).filter fun g => extreme g == i.rank).length

-- A number of steps that is enough for a group and the groups inside it that end together with it.
def Enough (a : Arrangement Rat) (extreme : String → Nat) (e : Entry) (k : Nat) : Prop :=
  ∀ i ∈ a.stock.items, e.id ∈ i.path → i.rank = extreme e.id → ending extreme e i ≤ k

structure Side (entries : List Entry) (a : Arrangement Rat) (extreme : String → Nat) (reach : Nat → Rat)
    (step : Rat) : Prop where
  step_nonneg : 0 ≤ step
  attained : ∀ e ∈ entries, ∃ i ∈ a.stock.items, e.id ∈ i.path ∧ i.rank = extreme e.id
  beyond : ∀ e ∈ entries, ∀ i ∈ a.stock.items, e.id ∈ i.path → i.rank ≠ extreme e.id →
    reach i.rank + most extreme (a.layers[i.rank]?.getD []) * step ≤ reach (extreme e.id)

section Steps

variable (hA : Arranged entries place a)
include hA

theorem enough_most : Enough a extreme e (most extreme (a.layers[extreme e.id]?.getD [])) := by
  intro i hi _ hr
  refine (List.Sublist.length_le ((List.drop_sublist ..).filter _)).trans ?_
  exact List.le_max?_getD_of_mem (List.mem_map.mpr ⟨i, hA.mem_layer_iff.mpr ⟨hi, hr⟩, rfl⟩)

theorem drop_path (he : e ∈ entries) (hi : i ∈ a.stock.items) (hg : e.id ∈ i.path) :
    i.path.drop (e.path.length - 1) = e.id :: i.path.drop e.path.length := by
  have ⟨q, hq⟩ := hA.forest.path_eq_append he
  have ⟨t, ht⟩ := (hA.mem_path_iff hi he).mp hg
  rw [← ht, hq]
  simp

theorem ending_of_child (he : e ∈ entries) (hi : i ∈ a.stock.items) (hg : e.id ∈ i.path)
    (hr : i.rank = extreme e.id) (hp : f.path = e.path ++ [f.id]) : ending extreme e i = ending extreme f i + 1 := by
  simp [ending, drop_path hA he hi hg, hp, hr]

namespace Side

variable (h : Side entries a extreme reach step)
include h

theorem one_le (he : e ∈ entries) (hk : Enough a extreme e k) : 1 ≤ k := by
  have ⟨i, hi, hg, hr⟩ := h.attained e he
  refine le_trans ?_ (hk i hi hg hr)
  simp [ending, drop_path hA he hi hg, hr]

theorem step_le (he : e ∈ entries) (hk : Enough a extreme e k) : step ≤ k * step := by
  have hone : (1 : Rat) ≤ k := by exact_mod_cast h.one_le hA he hk
  have := mul_le_mul_of_nonneg_right hone h.step_nonneg
  rwa [one_mul] at this

-- An item ends at least one step before the groups around it.
theorem reach_le (he : e ∈ entries) (hk : Enough a extreme e k) (hi : i ∈ a.stock.items) (hg : e.id ∈ i.path) :
    reach i.rank + step ≤ reach (extreme e.id) + k * step := by
  have hs := h.step_le hA he hk
  by_cases hr : i.rank = extreme e.id
  case pos =>
    rw [hr]
    linarith
  case neg =>
    have hb := h.beyond e he i hi hg hr
    have : 0 ≤ (most extreme (a.layers[i.rank]?.getD []) : Rat) * step :=
      mul_nonneg (Nat.cast_nonneg _) h.step_nonneg
    linarith

-- If an inner group ends together with a group, then it needs one step less. Otherwise it ends on a rank before,
-- and the room on that rank is enough for it.
theorem exists_of_child (he : e ∈ entries) (hf : f ∈ entries) (hp : f.path = e.path ++ [f.id])
    (hk : Enough a extreme e k) :
    ∃ m, Enough a extreme f m ∧ reach (extreme f.id) + m * step + step ≤ reach (extreme e.id) + k * step := by
  have inner {i : Item Rat} (hi : i ∈ a.stock.items) (hg : f.id ∈ i.path) : e.id ∈ i.path :=
    (hA.mem_path_iff hi he).mpr ((hp ▸ List.prefix_append ..).trans ((hA.mem_path_iff hi hf).mp hg))
  by_cases hr : extreme f.id = extreme e.id
  case pos =>
    obtain ⟨m, rfl⟩ := Nat.exists_eq_add_of_le' (h.one_le hA he hk)
    refine ⟨m, fun i hi hg hir => ?_, ?_⟩
    · have := hk i hi (inner hi hg) (hir.trans hr)
      rw [ending_of_child hA he hi (inner hi hg) (hir.trans hr) hp] at this
      exact Nat.le_of_succ_le_succ this
    · rw [hr, Nat.cast_succ, add_mul, one_mul, add_assoc]
  case neg =>
    refine ⟨_, enough_most hA, ?_⟩
    have ⟨i, hi, hg, hir⟩ := h.attained f hf
    have hb := h.beyond e he i hi (inner hi hg) (hir ▸ hr)
    have hs := h.step_le hA he hk
    rw [hir] at hb
    linarith

end Side

end Steps

namespace Stacked

variable (hs : Stacked g place s)
include hs

-- Below the last ranks of groups.
theorem bottomSide : Side (forest [] g.groups) s.toArrangement (fun g => (s.stock.span g).2)
    (fun r => s.bandBottom g.spacing r) g.spacing.groupPadding where
  step_nonneg := hs.nonneg (by simp [Spacing.lengths])
  attained _ he := hs.arranged.exists_last he
  beyond e he i hi hg hr := by
    obtain ⟨j, hj, _, hjr⟩ := hs.arranged.exists_last he
    have hlt : i.rank < j.rank := hjr ▸ lt_of_le_of_ne (hs.arranged.span_le he hi hg).right hr
    have hb := hs.bandBottom_le_bandTop hi hj hlt
    have hh := hs.headers_nonneg j.rank
    have := hs.bandTop_le_bandBottom j.rank
    change s.bandBottom g.spacing i.rank +
      RankBand.closing s.stock.span (s.layers[i.rank]?.getD []) * g.spacing.groupPadding ≤ _
    rw [← hjr]
    linarith

-- Above the first ranks of groups, measured upwards.
theorem topSide : Side (forest [] g.groups) s.toArrangement (fun g => (s.stock.span g).1)
    (fun r => -s.bandTop g.spacing r) (g.spacing.groupPadding + g.spacing.groupHeader) where
  step_nonneg := add_nonneg (hs.nonneg (by simp [Spacing.lengths])) (hs.nonneg (by simp [Spacing.lengths]))
  attained _ he := hs.arranged.exists_first he
  beyond e he i hi hg hr := by
    obtain ⟨j, hj, _, hjr⟩ := hs.arranged.exists_first he
    have hlt : j.rank < i.rank := hjr ▸ lt_of_le_of_ne (hs.arranged.span_le he hi hg).left (Ne.symm hr)
    have hb := hs.bandBottom_le_bandTop hj hi hlt
    have hc := hs.closing_nonneg j.rank
    have := hs.bandTop_le_bandBottom j.rank
    change -s.bandTop g.spacing i.rank + RankBand.headers g.spacing s.stock.span (s.layers[i.rank]?.getD []) ≤ _
    rw [← hjr]
    linarith

end Stacked

end LayeredDiagram
