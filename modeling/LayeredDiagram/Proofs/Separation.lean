import LayeredDiagram.Proofs.Coordinates
import LayeredDiagram.Proofs.Measures
/-!
What the horizontal constraints keep apart. Within a rank everything that stands in different groups, or
outside a group and inside it, is separated from left to right. This goes from neighbour to neighbour: between
two items the rank holds only what is inside the groups around both of them.
-/

namespace LayeredDiagram

open LayeredDiagram.Group

variable {entries : List Entry} {place : String → Nat} {a : Arrangement Rat} {spacing : Spacing Rat}
variable {x : Abscissae Rat} {i j k : Item Rat} {layer l₁ l₂ : List (Item Rat)} {p q : List String}
variable {g h : String} {e f : Entry}

namespace Item

-- The left end of an item, and the right end with the room for loops.
def leftEdge (x : Abscissae Rat) (i : Item Rat) : Rat :=
  x.value (.item i.slot) - i.width / 2

def rightEdge (x : Abscissae Rat) (i : Item Rat) : Rat :=
  x.value (.item i.slot) + i.width / 2 + i.extra

-- The ends of what an item stands in directly below a number of groups.
def leftBound (x : Abscissae Rat) (depth : Nat) (i : Item Rat) : Rat :=
  (Constraint.bounding? depth i).elim (i.leftEdge x) fun g => x.value (.left g)

def rightBound (x : Abscissae Rat) (depth : Nat) (i : Item Rat) : Rat :=
  (Constraint.bounding? depth i).elim (i.rightEdge x) fun g => x.value (.right g)

end Item

-- Coordinates that keep all constraints of an arrangement, except those of helpers.
structure Spaced (spacing : Spacing Rat) (entries : List Entry) (a : Arrangement Rat) (x : Abscissae Rat) :
    Prop where
  lengths : ∀ q ∈ spacing.lengths, IsMeasure q
  items : ∀ i ∈ a.stock.items, IsMeasure i.width ∧ IsMeasure i.height ∧ IsMeasure i.extra
  kept : ∀ c ∈ Constraint.all spacing entries a.stock.segments a.layers, (∀ i, c.tail ≠ .helper i) → c.Kept x

section Gaps

variable (hl : ∀ q ∈ spacing.lengths, IsMeasure q)
variable (hi : ∀ i ∈ a.stock.items, IsMeasure i.width ∧ IsMeasure i.height ∧ IsMeasure i.extra)

include hl in
theorem hasDecimals_between (hwi : IsMeasure i.width) (hei : IsMeasure i.extra) (hwj : IsMeasure j.width) :
    HasDecimals 8 (Constraint.between spacing i j).gap := by
  have hz : HasDecimals 8 (0.0 : Rat) := ⟨0, by norm_num⟩
  have hn := (hl spacing.node (by simp [Spacing.lengths])).decimals.succ
  have he := (hl spacing.edge (by simp [Spacing.lengths])).decimals.succ
  simp only [Constraint.between, Constraint.require]
  refine .add (.add ?left ?gap) ?right
  case left =>
    split
    · exact hz
    · exact hwi.decimals.half.add hei.decimals.succ
  case gap =>
    split
    · exact hn
    · exact he
  case right =>
    split
    · exact hz
    · exact hwj.decimals.half

include hl hi in
-- Halves of widths are the only lengths with eight decimals.
theorem Arranged.hasDecimals_gap (hA : Arranged entries place a) {c : Constraint Rat}
    (hc : c ∈ Constraint.all spacing entries a.stock.segments a.layers) : HasDecimals 8 c.gap := by
  have hp := (hl spacing.groupPadding (by simp [Spacing.lengths])).decimals.succ
  have hz : HasDecimals 8 (0 : Rat) := .natCast 8 0
  simp only [Constraint.all, Constraint.ofLayer, List.mem_append, List.mem_flatMap, List.mem_map, Prod.exists] at hc
  rcases hc with ((⟨layer, hla, ⟨i, j, hij, rfl⟩ | ⟨i, hil, hc⟩⟩ | ⟨e, _, hc⟩) | ⟨s, index, _, hc⟩) | ⟨e, _, rfl⟩
  · obtain ⟨l₁, l₂, he⟩ := mem_zip_tail_iff.mp hij
    have hmi := hi i (hA.mem_items hla (he ▸ by simp))
    exact hasDecimals_between hl hmi.left hmi.right.right (hi j (hA.mem_items hla (he ▸ by simp))).left
  · have hmi := hi i (hA.mem_items hla hil)
    have hw := hmi.left.decimals.half
    unfold Constraint.inside at hc
    split at hc
    · simp only [List.mem_cons, List.not_mem_nil, or_false] at hc
      rcases hc with rfl | rfl
      · exact hp.add hw
      · exact (hw.add hmi.right.right.decimals.succ).add hp
    · simp at hc
  · unfold Constraint.nested at hc
    split at hc
    · simp only [List.mem_cons, List.not_mem_nil, or_false] at hc
      rcases hc with rfl | rfl <;> exact hp
    · simp at hc
  · simp only [Constraint.aligned, List.mem_cons, List.not_mem_nil, or_false] at hc
    rcases hc with rfl | rfl <;> exact hz
  · exact hz

include hl hi in
-- The coordinates of a layout keep everything apart.
theorem Arranged.spaced (hA : Arranged entries place a) :
    Spaced spacing entries a (Abscissae.ofLayers spacing entries a.stock.segments a.layers) where
  lengths := hl
  items := hi
  kept _ hc ht := hA.kept hc ht (hA.hasDecimals_gap hl hi hc)

end Gaps

namespace Spaced

variable (hA : Arranged entries place a) (hS : Spaced spacing entries a x)
include hS

theorem kept_between (hl : layer ∈ a.layers) (he : layer = l₁ ++ i :: j :: l₂) :
    (Constraint.between spacing i j).Kept x := by
  refine hS.kept _ ?_ fun k => ?_
  · simp only [Constraint.all, Constraint.ofLayer, List.mem_append, List.mem_flatMap, List.mem_map, Prod.exists]
    exact .inl (.inl (.inl ⟨layer, hl, .inl ⟨i, j, mem_zip_tail_iff.mpr ⟨l₁, l₂, he⟩, rfl⟩⟩))
  · simp only [Constraint.between, Constraint.require]
    cases Constraint.bounding? _ i <;> simp

theorem gap_nonneg {q : Rat} (hq : q ∈ spacing.lengths) : 0 ≤ q :=
  (hS.lengths q hq).nonneg

-- Neighbours in a rank keep a gap between what they stand in.
theorem rightBound_add_gap_le (hl : layer ∈ a.layers) (he : layer = l₁ ++ i :: j :: l₂) :
    i.rightBound x (Chain.commonPath i.path j.path).length +
        (if ((Constraint.bounding? (Chain.commonPath i.path j.path).length i).isSome ||
            (Constraint.bounding? (Chain.commonPath i.path j.path).length j).isSome) || !(i.isDummy || j.isDummy)
          then spacing.node else spacing.edge) ≤
      j.leftBound x (Chain.commonPath i.path j.path).length := by
  have hk := hS.kept_between hl he
  have hz : (0.0 : Rat) = 0 := by norm_num
  simp only [Constraint.Kept, Constraint.between, Constraint.require] at hk
  unfold Item.rightBound Item.leftBound Item.rightEdge Item.leftEdge
  cases hi : Constraint.bounding? (Chain.commonPath i.path j.path).length i <;>
    cases hj : Constraint.bounding? (Chain.commonPath i.path j.path).length j <;>
    simp only [hi, hj, Option.elim_none, Option.elim_some, Option.isSome_none, Option.isSome_some,
      Bool.false_eq_true, if_true, if_false, Bool.or_self, Bool.true_or, Bool.or_true, Bool.false_or, hz] at hk ⊢ <;>
    linarith

theorem rightBound_le_of_neighbours (hl : layer ∈ a.layers) (he : layer = l₁ ++ i :: j :: l₂) :
    i.rightBound x (Chain.commonPath i.path j.path).length ≤
      j.leftBound x (Chain.commonPath i.path j.path).length := by
  have hg := hS.rightBound_add_gap_le hl he
  have hn := hS.gap_nonneg (q := spacing.node) (by simp [Spacing.lengths])
  have hm := hS.gap_nonneg (q := spacing.edge) (by simp [Spacing.lengths])
  split at hg <;> linarith

theorem leftEdge_le_rightEdge (hi : i ∈ a.stock.items) : i.leftEdge x ≤ i.rightEdge x := by
  obtain ⟨hw, _, he⟩ := hS.items i hi
  have := hw.nonneg
  have := he.nonneg
  unfold Item.leftEdge Item.rightEdge
  linarith

theorem left_le_right (he : e ∈ entries) : x.value (.left e.id) ≤ x.value (.right e.id) := by
  have hk : (Constraint.compact e : Constraint Rat).Kept x := by
    refine hS.kept _ ?_ fun k => by simp [Constraint.compact]
    simp only [Constraint.all, List.mem_append]
    exact .inr (List.mem_map_of_mem he)
  simp only [Constraint.Kept, Constraint.compact] at hk
  linarith

include hA in
-- A group keeps its padding from the bounds of the group around it.
theorem padding_of_child (he : e ∈ entries) (hf : f ∈ entries) (hp : e.path = f.path ++ [e.id]) :
    x.value (.left f.id) + spacing.groupPadding ≤ x.value (.left e.id) ∧
    x.value (.right e.id) + spacing.groupPadding ≤ x.value (.right f.id) := by
  have hc : e.parent? = some f.id := by
    rw [Entry.parent?, hp, List.dropLast_concat, hA.forest.getLast?_path hf]
  have mem {c : Constraint Rat} (hc : c ∈ Constraint.nested spacing e) :
      c ∈ Constraint.all spacing entries a.stock.segments a.layers := by
    simp only [Constraint.all, List.mem_append, List.mem_flatMap]
    exact .inl (.inl (.inr ⟨e, he, hc⟩))
  have hl := hS.kept _ (mem (c := .require (.left f.id) (.left e.id) spacing.groupPadding)
    (by simp [Constraint.nested, hc])) (by simp [Constraint.require])
  have hr := hS.kept _ (mem (c := .require (.right e.id) (.right f.id) spacing.groupPadding)
    (by simp [Constraint.nested, hc])) (by simp [Constraint.require])
  simp only [Constraint.Kept, Constraint.require] at hl hr
  exact ⟨hl, hr⟩

include hA in
-- An item keeps the padding of the innermost group around it.
theorem padding_of_item (he : e ∈ entries) (hi : i ∈ a.stock.items) (hp : i.path = e.path) :
    x.value (.left e.id) + spacing.groupPadding ≤ i.leftEdge x ∧
    i.rightEdge x + spacing.groupPadding ≤ x.value (.right e.id) := by
  have hg : i.path.getLast? = some e.id := hp ▸ hA.forest.getLast?_path he
  have ⟨layer, hl, _, hil⟩ := hA.exists_layer hi
  have mem {c : Constraint Rat} (hc : c ∈ Constraint.inside spacing i) :
      c ∈ Constraint.all spacing entries a.stock.segments a.layers := by
    simp only [Constraint.all, Constraint.ofLayer, List.mem_append, List.mem_flatMap]
    exact .inl (.inl (.inl ⟨layer, hl, .inr ⟨i, hil, hc⟩⟩))
  have hl := hS.kept _ (mem (c := .require (.left e.id) (.item i.slot) (spacing.groupPadding + i.width / 2))
    (by simp [Constraint.inside, hg])) (by simp [Constraint.require])
  have hr := hS.kept _ (mem (c := .require (.item i.slot) (.right e.id)
    (i.width / 2 + i.extra + spacing.groupPadding)) (by simp [Constraint.inside, hg])) (by simp [Constraint.require])
  simp only [Constraint.Kept, Constraint.require] at hl hr
  unfold Item.leftEdge Item.rightEdge
  constructor <;> linarith

include hA in
-- By induction on the length of the inner path.
theorem bounds_of_group (he : e ∈ entries) (hf : f ∈ entries) (hp : f.path <+: e.path) :
    x.value (.left f.id) ≤ x.value (.left e.id) ∧ x.value (.right e.id) ≤ x.value (.right f.id) := by
  induction hn : e.path.length generalizing e
  case zero => exact absurd (List.eq_nil_of_length_eq_zero hn) (hA.forest.path_ne_nil he)
  case succ n hi =>
    have same (h : f.path = e.path) : x.value (.left f.id) ≤ x.value (.left e.id) ∧
        x.value (.right e.id) ≤ x.value (.right f.id) := by
      rw [hA.forest.eq_of_path_eq hf he h]
      exact ⟨le_rfl, le_rfl⟩
    cases hA.forest.parent e he
    case inl h =>
      rw [h, ← List.nil_append [e.id], List.prefix_concat_iff] at hp
      exact same ((hp.resolve_right fun h => hA.forest.path_ne_nil hf (List.prefix_nil.mp h)).trans h.symm)
    case inr h =>
      have ⟨k, hk, hpe, _⟩ := h
      have hpad := hS.gap_nonneg (q := spacing.groupPadding) (by simp [Spacing.lengths])
      have hc := hS.padding_of_child hA he hk hpe
      rw [hpe, List.prefix_concat_iff, ← hpe] at hp
      cases hp
      case inl hp => exact same hp
      case inr hp =>
        have ih := hi hk hp (by simpa [hpe] using hn)
        constructor <;> linarith

include hA in
-- From all groups around it an item keeps at least the padding of the innermost one.
theorem padding_of_group (he : e ∈ entries) (hi : i ∈ a.stock.items) (hp : e.path <+: i.path) :
    x.value (.left e.id) + spacing.groupPadding ≤ i.leftEdge x ∧
    i.rightEdge x + spacing.groupPadding ≤ x.value (.right e.id) := by
  cases hA.isPath i hi
  case inl h => exact absurd (List.prefix_nil.mp (h ▸ hp)) (hA.forest.path_ne_nil he)
  case inr h =>
    have ⟨f, hf, h⟩ := h
    have hb := hS.padding_of_item hA hf hi h.symm
    have hg := hS.bounds_of_group hA hf he (h ▸ hp)
    constructor <;> linarith

include hA in
theorem bounds_of_item (he : e ∈ entries) (hi : i ∈ a.stock.items) (hp : e.path <+: i.path) :
    x.value (.left e.id) ≤ i.leftEdge x ∧ i.rightEdge x ≤ x.value (.right e.id) := by
  have hpad := hS.gap_nonneg (q := spacing.groupPadding) (by simp [Spacing.lengths])
  have hb := hS.padding_of_group hA he hi hp
  constructor <;> linarith

end Spaced

theorem Arranged.exists_layer_of_rank_eq (h : Arranged entries place a) (hi : i ∈ a.stock.items)
    (hj : j ∈ a.stock.items) (hr : i.rank = j.rank) : ∃ layer ∈ a.layers, i ∈ layer ∧ j ∈ layer := by
  obtain ⟨layer, hl, hlr, hil⟩ := h.exists_layer hi
  have hjl := h.mem_layer_iff.mpr ⟨hj, hr.symm⟩
  rw [hlr, Option.getD_some] at hjl
  exact ⟨layer, hl, hil, hjl⟩

namespace Item

theorem bounding?_eq_some_iff (hq : q <+: i.path) :
    Constraint.bounding? q.length i = some g ↔ q ++ [g] <+: i.path :=
  (Layers.concat_prefix_iff hq).symm

theorem rightBound_of_prefix (hg : q ++ [g] <+: i.path) : i.rightBound x q.length = x.value (.right g) := by
  rw [rightBound, (bounding?_eq_some_iff ((List.prefix_append ..).trans hg)).mpr hg, Option.elim_some]

theorem leftBound_of_prefix (hg : q ++ [g] <+: i.path) : i.leftBound x q.length = x.value (.left g) := by
  rw [leftBound, (bounding?_eq_some_iff ((List.prefix_append ..).trans hg)).mpr hg, Option.elim_some]

end Item

namespace Spaced

variable (hA : Arranged entries place a) (hS : Spaced spacing entries a x)
include hA hS

theorem bounds_of_prefix (hi : i ∈ a.stock.items) (hg : q ++ [g] <+: i.path) :
    x.value (.left g) ≤ i.leftEdge x ∧ i.rightEdge x ≤ x.value (.right g) ∧
    x.value (.left g) ≤ x.value (.right g) := by
  obtain ⟨e, he, rfl, hp⟩ := hA.forest.exists_of_isPath_concat (hA.forest.isPath_of_prefix (hA.isPath i hi) hg)
  have ⟨hl, hr⟩ := hS.bounds_of_item hA he hi (hp ▸ hg)
  exact ⟨hl, hr, hS.left_le_right he⟩

-- What an item stands in below a path holds the item.
theorem bounds_hold (hi : i ∈ a.stock.items) (hq : q <+: i.path) :
    i.leftBound x q.length ≤ i.leftEdge x ∧ i.rightEdge x ≤ i.rightBound x q.length ∧
    i.leftBound x q.length ≤ i.rightBound x q.length := by
  cases hb : Constraint.bounding? q.length i
  case none =>
    simpa [Item.leftBound, Item.rightBound, hb] using hS.leftEdge_le_rightEdge hi
  case some g =>
    have hg := (Item.bounding?_eq_some_iff hq).mp hb
    rw [Item.leftBound_of_prefix hg, Item.rightBound_of_prefix hg]
    exact hS.bounds_of_prefix hA hi hg

-- By induction on the items between. Either the first of them is in the same group as the left item, or it
-- is the neighbour of what the left item stands in.
theorem rightBound_le_leftBound {m : List (Item Rat)} (hl : layer ∈ a.layers) (he : layer = l₁ ++ i :: (m ++ j :: l₂))
    (hi : q <+: i.path) (hj : q <+: j.path) (hn : ∀ g, q ++ [g] <+: i.path → ¬q ++ [g] <+: j.path) :
    i.rightBound x q.length ≤ j.leftBound x q.length := by
  induction m generalizing i l₁
  case nil =>
    have := hS.rightBound_le_of_neighbours hl he
    rwa [Chain.commonPath_eq hi hj hn] at this
  case cons k m ih =>
    have hik : [i, k, j].Sublist layer := by
      rw [he]
      refine List.sublist_append_of_sublist_right (.cons_cons i ?_)
      exact .cons_cons k (List.sublist_append_of_sublist_right (by simp))
    have hk : q <+: k.path := by
      by_cases hq : q = []
      case pos => exact hq ▸ List.nil_prefix
      case neg => exact (hA.grouped layer hl).clustered q hq i k j hik hi hj
    have hkm : k ∈ a.stock.items := hA.mem_items hl (he ▸ by simp)
    have he' : layer = (l₁ ++ [i]) ++ k :: (m ++ j :: l₂) := by simp [he]
    by_cases hs : ∃ g, q ++ [g] <+: i.path ∧ q ++ [g] <+: k.path
    case pos =>
      -- the next item is in the same group, whose right bound is that of both
      have ⟨g, hgi, hgk⟩ := hs
      rw [Item.rightBound_of_prefix hgi, ← Item.rightBound_of_prefix hgk]
      refine ih he' hk fun h hhk hhj => hn g hgi ?_
      have hgh := List.prefix_of_prefix_length_le hgk hhk (by simp)
      rwa [hgh.eq_of_length (by simp)]
    case neg =>
      have hadj := hS.rightBound_le_of_neighbours hl he
      rw [Chain.commonPath_eq hi hk fun g hgi hgk => hs ⟨g, hgi, hgk⟩] at hadj
      -- the next item is outside, and what it stands in comes before the right item or holds it
      refine hadj.trans ?_
      by_cases ht : ∃ g, q ++ [g] <+: k.path ∧ q ++ [g] <+: j.path
      case pos =>
        have ⟨g, hgk, hgj⟩ := ht
        rw [Item.leftBound_of_prefix hgk, Item.leftBound_of_prefix hgj]
      case neg =>
        have hb := (hS.bounds_hold hA hkm hk).right.right
        exact hb.trans (ih he' hk fun g hgk hgj => ht ⟨g, hgk, hgj⟩)

-- Items of one rank are beside each other with what they stand in below a path, where they part.
theorem rightBound_le_leftBound_or (hi : i ∈ a.stock.items) (hj : j ∈ a.stock.items) (hr : i.rank = j.rank)
    (hij : i ≠ j) (hqi : q <+: i.path) (hqj : q <+: j.path) (hn : ∀ g, q ++ [g] <+: i.path → ¬q ++ [g] <+: j.path) :
    i.rightBound x q.length ≤ j.leftBound x q.length ∨ j.rightBound x q.length ≤ i.leftBound x q.length := by
  obtain ⟨layer, hl, hil, hjl⟩ := hA.exists_layer_of_rank_eq hi hj hr
  rcases exists_eq_append_of_ne hil hjl hij with ⟨l₁, m, l₂, he⟩ | ⟨l₁, m, l₂, he⟩
  · exact .inl (hS.rightBound_le_leftBound hA hl he hqi hqj hn)
  · exact .inr (hS.rightBound_le_leftBound hA hl he hqj hqi fun g hgj hgi => hn g hgi hgj)

-- So they do not overlap.
theorem rightEdge_le_leftEdge {m : List (Item Rat)} (hl : layer ∈ a.layers) (he : layer = l₁ ++ i :: (m ++ j :: l₂)) :
    i.rightEdge x ≤ j.leftEdge x := by
  obtain ⟨p, r, hp, hq, hn⟩ := Chain.exists_eq_commonPath_append i.path j.path
  have hqi := Chain.commonPath_prefix_left i.path j.path
  have hqj := Chain.commonPath_prefix_right i.path j.path
  generalize Chain.commonPath i.path j.path = q at *
  obtain ⟨_, hir, _⟩ := hS.bounds_hold hA (hA.mem_items hl (he ▸ by simp)) hqi
  obtain ⟨hjl, _, _⟩ := hS.bounds_hold hA (hA.mem_items hl (he ▸ by simp)) hqj
  refine hir.trans ((hS.rightBound_le_leftBound hA hl he hqi hqj fun g hgi hgj => ?parted).trans hjl)
  case parted =>
    rw [hp, List.prefix_append_right_inj] at hgi
    rw [hq, List.prefix_append_right_inj] at hgj
    obtain ⟨_, rfl⟩ := hgi
    obtain ⟨_, rfl⟩ := hgj
    exact hn g g rfl rfl rfl

-- What is next to an item keeps everything behind it as far away.
theorem rightEdge_add_le_of_next {m : List (Item Rat)} {d : Rat} (hl : layer ∈ a.layers)
    (he : layer = l₁ ++ i :: (m ++ j :: l₂))
    (hnext : ∀ k l, layer = l₁ ++ i :: k :: l → i.rightEdge x + d ≤ k.leftEdge x) :
    i.rightEdge x + d ≤ j.leftEdge x := by
  cases m
  case nil => exact hnext j l₂ he
  case cons k m =>
    have hik := hnext k (m ++ j :: l₂) he
    have hk := hS.leftEdge_le_rightEdge (i := k) (hA.mem_items hl (he ▸ by simp))
    have he' : layer = (l₁ ++ [i]) ++ k :: (m ++ j :: l₂) := by simp [he]
    have hkj := hS.rightEdge_le_leftEdge hA hl he'
    linarith

theorem rightEdge_le_leftEdge_or (hi : i ∈ a.stock.items) (hj : j ∈ a.stock.items) (hr : i.rank = j.rank)
    (hij : i ≠ j) : i.rightEdge x ≤ j.leftEdge x ∨ j.rightEdge x ≤ i.leftEdge x := by
  obtain ⟨layer, hl, hil, hjl⟩ := hA.exists_layer_of_rank_eq hi hj hr
  rcases exists_eq_append_of_ne hil hjl hij with ⟨l₁, m, l₂, he⟩ | ⟨l₁, m, l₂, he⟩
  · exact .inl (hS.rightEdge_le_leftEdge hA hl he)
  · exact .inr (hS.rightEdge_le_leftEdge hA hl he)

theorem bounds_of_concat_prefix (he : e ∈ entries) (hg : q ++ [g] <+: e.path) :
    x.value (.left g) ≤ x.value (.left e.id) ∧ x.value (.right e.id) ≤ x.value (.right g) := by
  obtain ⟨f, hf, rfl, hp⟩ := hA.forest.exists_of_isPath_concat (hA.forest.isPath_of_prefix (IsForest.isPath_path he) hg)
  exact hS.bounds_of_group hA he hf (hp ▸ hg)

-- An item is beside a group that it is not in, with everything that it stands in where their paths part.
theorem beside_group (he : e ∈ entries) (hi : i ∈ a.stock.items) (hj : j ∈ a.stock.items) (hr : i.rank = j.rank)
    (hei : e.id ∉ i.path) (hej : e.id ∈ j.path) :
    i.rightBound x (Chain.commonPath i.path e.path).length ≤ x.value (.left e.id) ∨
    x.value (.right e.id) ≤ i.leftBound x (Chain.commonPath i.path e.path).length := by
  obtain ⟨p, r, hp, hq, hn⟩ := Chain.exists_eq_commonPath_append i.path e.path
  have hqi := Chain.commonPath_prefix_left i.path e.path
  generalize Chain.commonPath i.path e.path = q at *
  rw [hA.mem_path_iff hi he] at hei
  rw [hA.mem_path_iff hj he] at hej
  -- from where the paths part, the way to the group goes on with a group that the item is not in
  obtain ⟨g, r, rfl⟩ : ∃ g t, r = g :: t := List.exists_cons_of_ne_nil fun h => hei (by rwa [hq, h, List.append_nil])
  have hge : q ++ [g] <+: e.path := ⟨r, by simp [hq]⟩
  have hij : i ≠ j := fun h => hei (h ▸ hej)
  have hb := hS.bounds_of_concat_prefix hA he hge
  have hparted := hS.rightBound_le_leftBound_or hA hi hj hr hij hqi ((List.prefix_append ..).trans (hge.trans hej))
    fun h hhi hhj => ?parted
  case parted =>
    have hgh := (List.prefix_of_prefix_length_le (hge.trans hej) hhj (by simp)).eq_of_length (by simp)
    rw [hp, List.prefix_append_right_inj] at hhi
    obtain ⟨_, rfl⟩ := hhi
    exact hn h g rfl rfl (by simpa using hgh.symm)
  rw [Item.leftBound_of_prefix (hge.trans hej), Item.rightBound_of_prefix (hge.trans hej)] at hparted
  exact hparted.imp (·.trans hb.left) hb.right.trans

-- Groups are beside each other on every rank that both of them have items on.
theorem groups_beside (he : e ∈ entries) (hf : f ∈ entries) (hef : e.id ∉ f.path) (hfe : f.id ∉ e.path)
    (hi : i ∈ a.stock.items) (hj : j ∈ a.stock.items) (hr : i.rank = j.rank) (hfi : f.id ∈ i.path)
    (hej : e.id ∈ j.path) :
    x.value (.right f.id) ≤ x.value (.left e.id) ∨ x.value (.right e.id) ≤ x.value (.left f.id) := by
  rw [hA.mem_path_iff hi hf] at hfi
  rw [hA.forest.mem_iff_path_prefix (IsForest.isPath_path hf) he] at hef
  rw [hA.forest.mem_iff_path_prefix (IsForest.isPath_path he) hf] at hfe
  have hei : e.id ∉ i.path := by
    rw [hA.mem_path_iff hi he]
    exact fun h => (List.prefix_or_prefix_of_prefix h hfi).elim hef hfe
  have hb := hS.beside_group hA he hi hj hr hei hej
  have hqi := Chain.commonPath_prefix_left i.path e.path
  have hqe := Chain.commonPath_prefix_right i.path e.path
  generalize Chain.commonPath i.path e.path = q at *
  -- the group of the item goes on from where the paths part
  obtain ⟨t, ht⟩ : q <+: f.path :=
    (List.prefix_or_prefix_of_prefix hqi hfi).resolve_right fun h => hfe (h.trans hqe)
  obtain ⟨h, t, rfl⟩ : ∃ h r, t = h :: r :=
    List.exists_cons_of_ne_nil fun h => hfe (by rwa [← ht, h, List.append_nil])
  have hhf : q ++ [h] <+: f.path := ⟨t, by simp [← ht]⟩
  obtain ⟨hl, hr⟩ := hS.bounds_of_concat_prefix hA hf hhf
  rw [Item.leftBound_of_prefix (hhf.trans hfi), Item.rightBound_of_prefix (hhf.trans hfi)] at hb
  exact hb.imp hr.trans (·.trans hl)

end Spaced

-- A distance that is kept around bends, also where they stand at the bounds of groups.
structure Spacing.Clearance (spacing : Spacing Rat) (entries : List Entry) (d : Rat) : Prop where
  edge : d ≤ spacing.edge
  bounds : entries ≠ [] → d ≤ spacing.node + spacing.groupPadding

namespace Spaced

variable {d : Rat} (hA : Arranged entries place a) (hS : Spaced spacing entries a x)
include hA hS

theorem clearance_of_neighbours (hd : spacing.Clearance entries d) (hl : layer ∈ a.layers)
    (he : layer = l₁ ++ i :: j :: l₂) (hij : i.isDummy ∨ j.isDummy) : i.rightEdge x + d ≤ j.leftEdge x := by
  have hi : i ∈ a.stock.items := hA.mem_items hl (he ▸ by simp)
  have hj : j ∈ a.stock.items := hA.mem_items hl (he ▸ by simp)
  have hg := hS.rightBound_add_gap_le hl he
  have hqi := Chain.commonPath_prefix_left i.path j.path
  have hqj := Chain.commonPath_prefix_right i.path j.path
  generalize Chain.commonPath i.path j.path = q at *
  obtain ⟨_, hri, _⟩ := hS.bounds_hold hA hi hqi
  obtain ⟨hlj, _, _⟩ := hS.bounds_hold hA hj hqj
  -- a group that one of them stands in adds its padding
  have padding {k : Item Rat} {g : String} (hk : k ∈ a.stock.items) (hqk : q <+: k.path)
      (hb : Constraint.bounding? q.length k = some g) : d ≤ spacing.node + spacing.groupPadding ∧
        k.leftBound x q.length + spacing.groupPadding ≤ k.leftEdge x ∧
        k.rightEdge x + spacing.groupPadding ≤ k.rightBound x q.length := by
    have hp := (Item.bounding?_eq_some_iff hqk).mp hb
    obtain ⟨e, hem, rfl, hpe⟩ := hA.forest.exists_of_isPath_concat (hA.forest.isPath_of_prefix (hA.isPath k hk) hp)
    rw [Item.leftBound_of_prefix hp, Item.rightBound_of_prefix hp]
    exact ⟨hd.bounds (List.ne_nil_of_mem hem), hS.padding_of_group hA hem hk (hpe ▸ hp)⟩
  cases hbi : Constraint.bounding? q.length i
  case some g =>
    rw [hbi, Option.isSome_some, Bool.true_or, Bool.true_or, if_pos rfl] at hg
    obtain ⟨hle, _, hpad⟩ := padding hi hqi hbi
    linarith
  case none =>
    cases hbj : Constraint.bounding? q.length j
    case some g =>
      rw [hbj, Option.isSome_some, Bool.or_true, Bool.true_or, if_pos rfl] at hg
      obtain ⟨hle, hpad, _⟩ := padding hj hqj hbj
      linarith
    case none =>
      have hdummy : (i.isDummy || j.isDummy) = true := by simpa using hij
      rw [hbi, hbj, hdummy, if_neg (by simp)] at hg
      have := hd.edge
      linarith

-- Behind the neighbours of a bend everything else is even further away.
theorem clearance_of_dummy (hd : spacing.Clearance entries d) (hi : i ∈ a.stock.items) (hj : j ∈ a.stock.items)
    (hr : i.rank = j.rank) (hij : i ≠ j) (hdi : i.isDummy) :
    i.rightEdge x + d ≤ j.leftEdge x ∨ j.rightEdge x + d ≤ i.leftEdge x := by
  obtain ⟨layer, hl, hil, hjl⟩ := hA.exists_layer_of_rank_eq hi hj hr
  rcases exists_eq_append_of_ne hil hjl hij with ⟨l₁, m, l₂, he⟩ | ⟨l₁, m, l₂, he⟩
  · left
    exact hS.rightEdge_add_le_of_next hA hl he fun k l he => hS.clearance_of_neighbours hA hd hl he (.inl hdi)
  · right
    rcases List.eq_nil_or_concat m with rfl | ⟨m, k, rfl⟩
    · exact hS.clearance_of_neighbours hA hd hl he (.inr hdi)
    · have he' : layer = (l₁ ++ j :: m) ++ k :: i :: l₂ := by simp [he]
      have hki := hS.clearance_of_neighbours hA hd hl he' (.inr hdi)
      have hk := hS.leftEdge_le_rightEdge (i := k) (hA.mem_items hl (he' ▸ by simp))
      have he' : layer = l₁ ++ j :: (m ++ k :: i :: l₂) := by simp [he]
      have hjk := hS.rightEdge_le_leftEdge hA hl he'
      linarith

end Spaced

end LayeredDiagram
