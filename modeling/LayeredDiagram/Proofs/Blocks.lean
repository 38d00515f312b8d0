import LayeredDiagram.Layout.Order
import LayeredDiagram.Proofs.Clustered
import LayeredDiagram.Proofs.Forest
import Mathlib.Data.List.Sort
/-!
Making groups contiguous within one rank. The result holds the same items; the items below any path stand
next to each other, and groups side by side come in the order that was asked for. Both follow level by
level: at each depth the rank is put together from single items and from the contents of groups, and no
group has two places.
-/

namespace LayeredDiagram.Layers

variable {α : Type} {order : List (String × Nat)} {content : String → List (Item α)}
variable {blocks : List (Block α)} {queue : List String} {i : Item α} {g h : String} {p q : List String}

-- The item of a block that is not a group.
def Block.single? : Block α → Option (Item α)
  | .single i => some i
  | .group _ => none

-- The items that a block stands for.
def Block.items (content : String → List (Item α)) : Block α → List (Item α)
  | .single i => [i]
  | .group g => content g

-- The blocks with the groups of a queue in the places of their own groups.
def relabel : List (Block α) → List String → List (Block α)
  | [], _ => []
  | .single i :: blocks, queue => .single i :: relabel blocks queue
  | .group _ :: blocks, [] => relabel blocks []
  | .group _ :: blocks, g :: queue => .group g :: relabel blocks queue

theorem deal_eq_flatMap : deal content blocks queue = (relabel blocks queue).flatMap (Block.items content) := by
  fun_induction relabel blocks queue <;> simp_all [deal, Block.items]

theorem filterMap_single?_relabel :
    (relabel blocks queue).filterMap Block.single? = blocks.filterMap Block.single? := by
  fun_induction relabel blocks queue
  case case1 => rfl
  all_goals simpa [Block.single?] using ‹_›

theorem filterMap_group?_relabel (hl : (blocks.filterMap Block.group?).length = queue.length) :
    (relabel blocks queue).filterMap Block.group? = queue := by
  fun_induction relabel blocks queue
  case case1 => exact (List.eq_nil_of_length_eq_zero hl.symm).symm
  case case2 hi =>
    rw [List.filterMap_cons]
    exact hi hl
  case case3 => simp [Block.group?] at hl
  case case4 hi => simpa [Block.group?] using hi (by simpa [Block.group?] using hl)

theorem flatMap_items_perm : (blocks.flatMap (Block.items content)).Perm
    (blocks.filterMap Block.single? ++ (blocks.filterMap Block.group?).flatMap content) := by
  induction blocks
  case nil => simp
  case cons b blocks hi =>
    cases b
    case single i =>
      simp only [List.flatMap_cons, Block.items, List.filterMap_cons, Block.single?, Block.group?]
      exact .cons i hi
    case group g =>
      simp only [List.flatMap_cons, Block.items, List.filterMap_cons, Block.single?, Block.group?]
      exact (List.Perm.append_left _ hi).trans (List.perm_append_comm_assoc ..)

section Blocks

variable [Scalar α] {items : List (Item α)} {depth levels : Nat}

-- The single items of a rank keep their order.
theorem map_singles {f : Item α × Nat → Option (Block α × α)} (n : Nat)
    (hf : ∀ i n, f (i, n) = if i.path[depth]? = none then some (Block.single i, (n : α)) else none) :
    ((items.zipIdx n).filterMap f).map (·.1) = (items.filter (·.path[depth]? = none)).map Block.single := by
  induction items generalizing n
  case nil => rfl
  case cons i items hi =>
    rw [List.zipIdx_cons, List.filterMap_cons, hf, List.filter_cons]
    by_cases hp : i.path[depth]? = none <;> simp [hp, hi]

-- The blocks of a rank hold its single items and, once each, its groups.
theorem blocks_perm (depth : Nat) (items : List (Item α)) : (Layers.blocks depth items).Perm
    ((items.filter (·.path[depth]? = none)).map Block.single ++
      ((items.filterMap fun i => i.path[depth]?).eraseDups).map Block.group) := by
  simp only [Layers.blocks]
  refine ((List.mergeSort_perm ..).map _).trans (.of_eq ?_)
  rw [List.map_append]
  refine congrArg₂ (· ++ ·) (map_singles 0 fun i n => ?_) (by simp [Function.comp_def])
  cases i.path[depth]? <;> rfl

theorem filterMap_single?_blocks_perm (depth : Nat) (items : List (Item α)) :
    ((Layers.blocks depth items).filterMap Block.single?).Perm (items.filter (·.path[depth]? = none)) := by
  refine ((blocks_perm depth items).filterMap _).trans (.of_eq ?_)
  simp [List.filterMap_map, Function.comp_def, Block.single?]

theorem filterMap_group?_blocks_perm (depth : Nat) (items : List (Item α)) :
    ((Layers.blocks depth items).filterMap Block.group?).Perm
      ((items.filterMap fun i => i.path[depth]?).eraseDups) := by
  refine ((blocks_perm depth items).filterMap _).trans (.of_eq ?_)
  simp [List.filterMap_map, Function.comp_def, Block.group?]

-- The places of groups in the order in which they are handed out.
def queueOf (order : List (String × Nat)) (depth : Nat) (items : List (Item α)) : List String :=
  ((Layers.blocks depth items).filterMap Block.group?).mergeSort fun a b => place order a ≤ place order b

-- The rank before the contents of its groups are written out.
def outline (order : List (String × Nat)) (depth : Nat) (items : List (Item α)) : List (Block α) :=
  relabel (Layers.blocks depth items) (queueOf order depth items)

-- The items below a group, arranged in turn.
def contentOf (order : List (String × Nat)) (levels depth : Nat) (items : List (Item α)) (g : String) :
    List (Item α) :=
  arrange order levels (depth + 1) (items.filter fun i => i.path[depth]? = some g)

theorem arrange_succ : arrange order (levels + 1) depth items =
    (outline order depth items).flatMap (Block.items (contentOf order levels depth items)) :=
  deal_eq_flatMap

theorem filterMap_group?_outline :
    (outline order depth items).filterMap Block.group? = queueOf order depth items :=
  filterMap_group?_relabel (List.mergeSort_perm ..).length_eq.symm

theorem queueOf_perm :
    (queueOf order depth items).Perm ((items.filterMap fun i => i.path[depth]?).eraseDups) :=
  (List.mergeSort_perm ..).trans (filterMap_group?_blocks_perm depth items)

theorem queueOf_nodup : (queueOf order depth items).Nodup :=
  queueOf_perm.nodup_iff.mpr (nodup_eraseDups _)

theorem queueOf_sorted : (queueOf order depth items).Pairwise fun g h => place order g ≤ place order h :=
  List.pairwise_mergeSort' (Order.Preimage (place order) (· ≤ ·)) _

-- No group has two places, and the groups come in the order asked for.
theorem outline_pairwise : (outline order depth items).Pairwise fun b c =>
    ∀ g, b.group? = some g → ∀ h, c.group? = some h → g ≠ h ∧ place order g ≤ place order h := by
  rw [← List.pairwise_filterMap, filterMap_group?_outline]
  exact List.Pairwise.and queueOf_nodup queueOf_sorted

theorem arrange_perm (order : List (String × Nat)) (levels depth : Nat) (items : List (Item α)) :
    (arrange order levels depth items).Perm items := by
  induction levels generalizing depth items
  case zero => exact .refl _
  case succ levels hi =>
    have hs : ((outline order depth items).filterMap Block.single?).Perm
        (items.filter (·.path[depth]? = none)) := by
      rw [outline, filterMap_single?_relabel]
      exact filterMap_single?_blocks_perm depth items
    have hg : ((queueOf order depth items).flatMap (contentOf order levels depth items)).Perm
        ((queueOf order depth items).flatMap fun g => items.filter (·.path[depth]? = some g)) :=
      .flatMap_left _ fun g _ => hi (depth + 1) _
    rw [arrange_succ]
    refine flatMap_items_perm.trans ?_
    rw [filterMap_group?_outline]
    refine (hs.append hg).trans (perm_filter_keys queueOf_nodup ?_)
    intro i hi g hg
    rw [queueOf_perm.mem_iff, List.mem_eraseDups, List.mem_filterMap]
    exact ⟨i, hi, hg⟩

-- A block holds the items with its own group, or none, at the depth of the outline.
theorem group?_of_mem_outline {b : Block α} (hb : b ∈ outline order depth items)
    (hi : i ∈ b.items (contentOf order levels depth items)) : b.group? = i.path[depth]? := by
  cases b
  case single j =>
    have hj : j ∈ (outline order depth items).filterMap Block.single? :=
      List.mem_filterMap.mpr ⟨_, hb, rfl⟩
    rw [outline, filterMap_single?_relabel, (filterMap_single?_blocks_perm depth items).mem_iff] at hj
    simp only [Block.items, List.mem_singleton] at hi
    have := (List.mem_filter.mp hj).right
    simp_all [Block.group?]
  case group g =>
    simp only [Block.items, contentOf, (arrange_perm ..).mem_iff, List.mem_filter, decide_eq_true_eq] at hi
    exact hi.right.symm ▸ rfl

theorem mem_of_mem_outline {b : Block α} (hb : b ∈ outline order depth items)
    (hi : i ∈ b.items (contentOf order levels depth items)) : i ∈ items := by
  rw [← (arrange_perm order (levels + 1) depth items).mem_iff, arrange_succ]
  exact List.mem_flatMap.mpr ⟨b, hb, hi⟩

theorem mem_contentOf_iff : i ∈ contentOf order levels depth items g ↔
    i ∈ items ∧ i.path[depth]? = some g := by
  simp [contentOf, (arrange_perm ..).mem_iff]

-- Two items below different groups side by side come in the order of these groups.
def InOrder (order : List (String × Nat)) (i j : Item α) : Prop :=
  ∀ p g h, p ++ [g] <+: i.path → p ++ [h] <+: j.path → g ≠ h → place order g ≤ place order h

end Blocks

theorem concat_prefix_iff {r : List String} (hq : q <+: r) : q ++ [g] <+: r ↔ r[q.length]? = some g := by
  obtain ⟨t, rfl⟩ := hq
  rw [List.prefix_append_right_inj]
  cases t <;> simp [eq_comm]

-- Of two paths with a common beginning, one that leads below it fixes the next step.
theorem exists_concat_prefix {r : List String} (hq : q <+: r) (hp : p <+: r) (hl : q.length < p.length) :
    ∃ g, q ++ [g] <+: p := by
  obtain ⟨t, rfl⟩ := List.prefix_of_prefix_length_le hq hp hl.le
  cases t
  case nil => simp at hl
  case cons g t => exact ⟨g, t, by simp⟩

-- Two paths with a common beginning part no earlier than it ends.
theorem length_le_of_parting {r r' : List String} (hr : q <+: r) (hr' : q <+: r') (hg : p ++ [g] <+: r)
    (hh : p ++ [h] <+: r') (hn : g ≠ h) : q.length ≤ p.length := by
  by_contra hl
  have hg := List.prefix_of_prefix_length_le hg hr (by simp; omega)
  have hh := List.prefix_of_prefix_length_le hh hr' (by simp; omega)
  have he := List.prefix_of_prefix_length_le hg hh (by simp)
  rw [List.prefix_append_right_inj] at he
  exact hn (by simpa using he)

section Arrange

variable [Scalar α] {items : List (Item α)} {levels : Nat}

-- What an arranged list is made from: items below a path, and not too many groups further down.
structure Below (q : List String) (levels : Nat) (items : List (Item α)) : Prop where
  path : ∀ i ∈ items, q <+: i.path
  length : ∀ i ∈ items, i.path.length ≤ q.length + levels

omit [Scalar α] in
theorem Below.filter (h : Below q (levels + 1) items) (g : String) :
    Below (q ++ [g]) levels (items.filter fun i => i.path[q.length]? = some g) where
  path i hi := by
    have ⟨hi, hg⟩ := List.mem_filter.mp hi
    exact (concat_prefix_iff (h.path i hi)).mpr (by simpa using hg)
  length i hi := by
    have := h.length i (List.mem_of_mem_filter hi)
    simp only [List.length_append, List.length_singleton]
    omega

-- Items below the same group at the depth of an outline come from the same block.
theorem outline_blocks_apart {depth : Nat} : (outline order depth items).Pairwise fun b c =>
    ∀ i ∈ b.items (contentOf order levels depth items), ∀ j ∈ c.items (contentOf order levels depth items),
      ¬∃ g, i.path[depth]? = some g ∧ j.path[depth]? = some g := by
  refine outline_pairwise.imp_of_mem fun {b c} hb hc h i hi j hj ⟨g, hg, hg'⟩ => ?_
  exact (h g (group?_of_mem_outline hb hi ▸ hg) g (group?_of_mem_outline hc hj ▸ hg')).left rfl

-- By induction on the levels: the next step of the path leads to one block, and into its content.
theorem arrange_clustered (hb : Below q levels items) (hp : q.length < p.length) :
    Clustered (fun i => p <+: i.path) (arrange order levels q.length items) := by
  induction levels generalizing q items
  case zero =>
    intro i _ _ hs hi _
    have hi' : i ∈ items := hs.subset (by simp)
    have := hi.length_le
    have := hb.length i hi'
    omega
  case succ levels hi =>
    intro i j k hs hpi hpk
    have hmem {x} (hx : x ∈ [i, j, k]) : x ∈ items := (arrange_perm ..).mem_iff.mp (hs.subset hx)
    have ⟨g, hg⟩ := exists_concat_prefix (hb.path i (hmem (by simp))) hpi hp
    have hgi := (concat_prefix_iff (hb.path i (hmem (by simp)))).mp (hg.trans hpi)
    have hgk := (concat_prefix_iff (hb.path k (hmem (by simp)))).mp (hg.trans hpk)
    rw [arrange_succ] at hs
    have ⟨b, hbo, hs⟩ := exists_mem_of_triple_sublist outline_blocks_apart hs ⟨g, hgi, hgk⟩
    have hgroup := group?_of_mem_outline hbo (hs.subset (by simp : i ∈ [i, j, k]))
    rw [hgi] at hgroup
    match b, hgroup with
    | .group _, rfl =>
      by_cases hl : (q ++ [g]).length < p.length
      case pos =>
        have hc := hi (hb.filter g) hl
        rw [List.length_append] at hc
        exact hc i j k hs hpi hpk
      case neg =>
        have hj := mem_contentOf_iff.mp (hs.subset (by simp : j ∈ [i, j, k]))
        have he : q ++ [g] = p := hg.eq_of_length_le (by omega)
        exact he ▸ (concat_prefix_iff (hb.path j hj.left)).mpr hj.right

-- Likewise, two items that part at the depth of an outline stand in different blocks.
theorem arrange_inOrder (hb : Below q levels items) :
    (arrange order levels q.length items).Pairwise (InOrder order) := by
  induction levels generalizing q items
  case zero =>
    refine List.pairwise_of_forall_mem_list fun i hi j hj p g h hg hh hn => ?_
    have hl := length_le_of_parting (hb.path i hi) (hb.path j hj) hg hh hn
    have hi := hb.length i hi
    have hg := hg.length_le
    rw [List.length_append, List.length_singleton] at hg
    omega
  case succ levels hi =>
    rw [arrange_succ, List.pairwise_flatMap]
    constructor
    case left =>
      intro b _
      match b with
      | .single i => exact List.pairwise_singleton ..
      | .group g => simpa [Block.items, contentOf] using hi (hb.filter g)
    case right =>
      refine outline_pairwise.imp_of_mem fun {b c} hbo hco hbc i hi j hj p g h hg hh hn => ?_
      have hgi := group?_of_mem_outline hbo hi
      have hgj := group?_of_mem_outline hco hj
      have hqi := hb.path i (mem_of_mem_outline hbo hi)
      have hqj := hb.path j (mem_of_mem_outline hco hj)
      have hpi := (List.prefix_append p [g]).trans hg
      have hpj := (List.prefix_append p [h]).trans hh
      cases (length_le_of_parting hqi hqj hg hh hn).eq_or_lt
      case inl hl =>
        have he := (List.prefix_of_prefix_length_le hqi hpi hl.le).eq_of_length hl
        rw [← he] at hg hh
        rw [concat_prefix_iff hqi] at hg
        rw [concat_prefix_iff hqj] at hh
        exact (hbc g (hgi.trans hg) h (hgj.trans hh)).right
      case inr hl =>
        have ⟨k, hk⟩ := exists_concat_prefix hqi hpi hl
        have hki := (concat_prefix_iff hqi).mp (hk.trans hpi)
        have hkj := (concat_prefix_iff hqj).mp (hk.trans hpj)
        exact absurd rfl (hbc k (hgi.trans hki) k (hgj.trans hkj)).left

theorem path_length_le_depth {entries : List Group.Entry} {e : Group.Entry} (he : e ∈ entries) :
    e.path.length ≤ depth entries :=
  List.le_max?_getD_of_mem (List.mem_map.mpr ⟨e, he, rfl⟩)

end Arrange

end LayeredDiagram.Layers
