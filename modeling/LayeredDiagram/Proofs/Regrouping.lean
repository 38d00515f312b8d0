import LayeredDiagram.Proofs.Items
import LayeredDiagram.Proofs.LayerOrder
import Mathlib.Algebra.Order.BigOperators.Group.List
import Mathlib.Data.List.Sort
/-!
When making groups contiguous changes nothing, in exact arithmetic. A block's mean position lies between the
positions of its items. If the blocks of a rank already stand apart from each other, their means are in the order of
the blocks; and if groups side by side already stand in the order asked for, every block gets its own place back.
-/

namespace LayeredDiagram

section Positions

variable {β : Type} {l l' : List β} {p : β → Prop} {a b c : β}

-- One entry stands somewhere to the left of another.
def Before (l : List β) (a b : β) : Prop :=
  ∃ m n : Nat, m < n ∧ l[m]? = some a ∧ l[n]? = some b

theorem pairwise_before (l : List β) : l.Pairwise (Before l) := by
  rw [List.pairwise_iff_getElem]
  exact fun m n hm hn hlt => ⟨m, n, hlt, List.getElem?_eq_getElem hm, List.getElem?_eq_getElem hn⟩

theorem eq_of_getElem? (hn : l.Nodup) {m n : Nat} (hm : l[m]? = some a) (hl : l[n]? = some a) : m = n := by
  have ⟨hlt, _⟩ := List.getElem?_eq_some_iff.mp hm
  exact (List.getElem?_inj hlt hn).mp (hm.trans hl.symm)

theorem Before.asymm (hn : l.Nodup) (h : Before l a b) : ¬Before l b a := by
  intro ⟨m', n', hlt', hm', hn'⟩
  obtain ⟨m, n, hlt, hma, hnb⟩ := h
  have := eq_of_getElem? hn hma hn'
  have := eq_of_getElem? hn hnb hm'
  omega

theorem before_or_before (ha : a ∈ l) (hb : b ∈ l) (hne : a ≠ b) : Before l a b ∨ Before l b a := by
  obtain ⟨m, hm⟩ := List.getElem?_of_mem ha
  obtain ⟨n, hn⟩ := List.getElem?_of_mem hb
  rcases lt_trichotomy m n with hlt | rfl | hlt
  · exact .inl ⟨m, n, hlt, hm, hn⟩
  · exact absurd (Option.some.inj (hm.symm.trans hn)) hne
  · exact .inr ⟨n, m, hlt, hn, hm⟩

theorem Before.rel {r : β → β → Prop} (h : Before l a b) (hr : l.Pairwise r) : r a b := by
  obtain ⟨m, n, hlt, hm, hn⟩ := h
  obtain ⟨hml, rfl⟩ := List.getElem?_eq_some_iff.mp hm
  obtain ⟨hnl, rfl⟩ := List.getElem?_eq_some_iff.mp hn
  exact List.pairwise_iff_getElem.mp hr m n hml hnl hlt

-- What stands between two entries with a property has it too.
theorem Clustered.of_before (h : Clustered p l) (hn : l.Nodup) (hab : Before l a b) (hbc : Before l b c)
    (ha : p a) (hc : p c) : p b := by
  obtain ⟨k, m, hkm, hk, hm⟩ := hab
  obtain ⟨m', n, hmn, hm', hnc⟩ := hbc
  obtain rfl := eq_of_getElem? hn hm hm'
  refine h a b c ?_ ha hc
  have hleft : a ∈ l.take m := List.mem_of_getElem? (by rwa [List.getElem?_take_of_lt hkm])
  have hright : c ∈ l.drop (m + 1) := by
    refine List.mem_of_getElem? (i := n - (m + 1)) ?_
    rwa [List.getElem?_drop, Nat.add_sub_of_le hmn]
  have hsplit : l = l.take m ++ b :: l.drop (m + 1) := by
    obtain ⟨hlt, rfl⟩ := List.getElem?_eq_some_iff.mp hm
    rw [← List.drop_eq_getElem_cons hlt, List.take_append_drop]
  rw [hsplit]
  exact (List.singleton_sublist.mpr hleft).append ((List.singleton_sublist.mpr hright).cons_cons b)

end Positions

namespace Layers

variable {items : List (Item Rat)} {i j : Item Rat} {b c : Block Rat} {m : Rat} {depth levels : Nat} {q : List String}
variable {order : List (String × Nat)}

-- The items that a block stands for before they are arranged.
abbrev membersOf (depth : Nat) (items : List (Item Rat)) : Block Rat → List (Item Rat) :=
  Block.items fun g => items.filter fun i => i.path[depth]? = some g

-- The blocks with their positions, in the order in which they are made.
def keyed (depth : Nat) (items : List (Item Rat)) : List (Block Rat × Rat) :=
  let singles : List (Block Rat × Rat) := items.zipIdx.filterMap fun (item, i) =>
    match item.path[depth]? with
    | none => some (Block.single item, (i : Rat))
    | some _ => none
  let groups := (items.filterMap fun item => item.path[depth]?).eraseDups
  let grouped : List (Block Rat × Rat) := groups.map fun g =>
    let slots := items.zipIdx.filter fun (item, _) => item.path[depth]? = some g
    let total : Nat := slots.foldr (fun slot total => slot.2 + total) 0
    (Block.group g, (total : Rat) / (slots.length : Rat))
  singles ++ grouped

theorem blocks_eq : Layers.blocks depth items = ((keyed depth items).mergeSort fun a b => a.2 ≤ b.2).map (·.1) :=
  rfl

-- A block's position lies between the positions of two of its items.
structure Amid (items members : List (Item Rat)) (m : Rat) : Prop where
  below : ∃ i ∈ members, ∃ n : Nat, items[n]? = some i ∧ (n : Rat) ≤ m
  above : ∃ i ∈ members, ∃ n : Nat, items[n]? = some i ∧ m ≤ n

theorem exists_mean {xs : List (Item Rat × Nat)} (hn : xs ≠ []) :
    let mean := ((xs.foldr (fun x total => x.2 + total) 0 : Nat) : Rat) / xs.length
    (∃ x ∈ xs, (x.2 : Rat) ≤ mean) ∧ ∃ x ∈ xs, mean ≤ x.2 := by
  intro mean
  have hsum : (xs.map fun x => (x.2 : Rat)).sum = (xs.map fun _ => mean).sum := by
    have hpos : (xs.length : Rat) ≠ 0 := by simpa using hn
    have htotal : (xs.map fun x => (x.2 : Rat)).sum = (xs.foldr (fun x total => x.2 + total) 0 : Nat) := by
      clear hpos mean hn
      induction xs
      case nil => simp
      case cons x xs hi => simp [hi]
    rw [htotal, List.map_const', List.sum_replicate, nsmul_eq_mul, mul_div_cancel₀ _ hpos]
  exact ⟨List.exists_le_of_sum_le hn _ _ hsum.le, List.exists_le_of_sum_le hn _ _ hsum.ge⟩

theorem amid_of_mem_keyed (h : (b, m) ∈ keyed depth items) : Amid items (membersOf depth items b) m := by
  rw [keyed, List.mem_append] at h
  cases h
  case inl h =>
    obtain ⟨⟨i, n⟩, hx, he⟩ := List.mem_filterMap.mp h
    have hi := List.mk_mem_zipIdx_iff_getElem?.mp hx
    cases hp : i.path[depth]?
    case some => simp [hp] at he
    case none =>
      simp only [hp, Option.some.injEq, Prod.mk.injEq] at he
      obtain ⟨rfl, rfl⟩ := he
      exact ⟨⟨i, by simp [Block.items], n, hi, le_rfl⟩, ⟨i, by simp [Block.items], n, hi, le_rfl⟩⟩
  case inr h =>
    obtain ⟨g, hg, he⟩ := List.mem_map.mp h
    obtain ⟨rfl, rfl⟩ := Prod.mk.inj he
    obtain ⟨i, hi, hgi⟩ := List.mem_filterMap.mp (List.mem_eraseDups.mp hg)
    obtain ⟨n, hn⟩ := List.getElem?_of_mem hi
    let slots := items.zipIdx.filter fun x => x.1.path[depth]? = some g
    have hslots : slots ≠ [] :=
      List.ne_nil_of_mem (List.mem_filter.mpr ⟨List.mk_mem_zipIdx_iff_getElem?.mpr hn, by simpa using hgi⟩)
    have member {x : Item Rat × Nat} (hx : x ∈ slots) : items[x.2]? = some x.1 ∧
        x.1 ∈ membersOf depth items (Block.group g) := by
      obtain ⟨hx, hp⟩ := List.mem_filter.mp hx
      exact ⟨List.mem_zipIdx_iff_getElem?.mp hx, List.mem_filter.mpr ⟨List.fst_mem_of_mem_zipIdx hx, hp⟩⟩
    obtain ⟨⟨x, hx, hle⟩, y, hy, hge⟩ := exists_mean hslots
    exact ⟨⟨x.1, (member hx).right, x.2, (member hx).left, hle⟩, ⟨y.1, (member hy).right, y.2, (member hy).left, hge⟩⟩

-- Blocks in which the items of a group stand next to each other.
def Apart (depth : Nat) (items : List (Item Rat)) : Prop :=
  ∀ g, Clustered (fun i => i.path[depth]? = some g) items

theorem mem_membersOf_of_between (hn : items.Nodup) (hd : Apart depth items) {i j k : Item Rat}
    (hi : i ∈ membersOf depth items b) (hj : j ∈ items) (hk : k ∈ membersOf depth items b) (hij : Before items i j)
    (hjk : Before items j k) : j ∈ membersOf depth items b := by
  cases b
  case single =>
    obtain rfl := List.mem_singleton.mp hi
    obtain rfl := List.mem_singleton.mp hk
    exact absurd hjk (hij.asymm hn)
  case group g =>
    have hi := (List.mem_filter.mp hi).right
    have hk := (List.mem_filter.mp hk).right
    simp only [decide_eq_true_eq] at hi hk
    exact List.mem_filter.mpr ⟨hj, by simpa using (hd g).of_before hn hij hjk hi hk⟩

theorem single_mem_blocks_iff : Block.single i ∈ Layers.blocks depth items ↔ i ∈ items ∧ i.path[depth]? = none := by
  simp [(blocks_perm depth items).mem_iff]

theorem mem_items_of_mem_membersOf (hb : b ∈ Layers.blocks depth items) (hi : i ∈ membersOf depth items b) : i ∈ items := by
  cases b
  case group => exact List.mem_of_mem_filter hi
  case single => exact List.mem_singleton.mp hi ▸ (single_mem_blocks_iff.mp hb).left

theorem group?_eq_of_mem_membersOf (hb : b ∈ Layers.blocks depth items) (hi : i ∈ membersOf depth items b) :
    b.group? = i.path[depth]? := by
  cases b
  case group => simpa [Block.group?, eq_comm] using (List.mem_filter.mp hi).right
  case single => exact List.mem_singleton.mp hi ▸ (single_mem_blocks_iff.mp hb).right.symm

-- Two blocks have no item in common.
theorem eq_of_mem_membersOf (hb : b ∈ Layers.blocks depth items) (hc : c ∈ Layers.blocks depth items)
    (hi : i ∈ membersOf depth items b) (hi' : i ∈ membersOf depth items c) : b = c := by
  have hbc := (group?_eq_of_mem_membersOf hb hi).trans (group?_eq_of_mem_membersOf hc hi').symm
  cases b <;> cases c
  case single.single => rw [← List.mem_singleton.mp hi, ← List.mem_singleton.mp hi']
  case group.group => rw [Option.some.inj hbc]
  all_goals cases hbc

theorem nodup_blocks (hn : items.Nodup) : (Layers.blocks depth items).Nodup := by
  rw [(blocks_perm depth items).nodup_iff, List.nodup_append]
  refine ⟨(hn.filter _).map fun _ _ h => Block.single.inj h, (nodup_eraseDups _).map fun _ _ h => Block.group.inj h, ?_⟩
  intro b hb c hc h
  obtain ⟨i, _, rfl⟩ := List.mem_map.mp hb
  obtain ⟨g, _, rfl⟩ := List.mem_map.mp hc
  cases h

-- If one item of a block stands before one of another block, all do.
theorem before_of_before (hn : items.Nodup) (hd : Apart depth items) (hb : b ∈ Layers.blocks depth items)
    (hc : c ∈ Layers.blocks depth items) (hne : b ≠ c) {i₀ j₀ : Item Rat} (hi₀ : i₀ ∈ membersOf depth items b)
    (hj₀ : j₀ ∈ membersOf depth items c) (h : Before items i₀ j₀) (hi : i ∈ membersOf depth items b)
    (hj : j ∈ membersOf depth items c) : Before items i j := by
  have mem {b : Block Rat} {i : Item Rat} (hb : b ∈ Layers.blocks depth items) (hi : i ∈ membersOf depth items b) :
      i ∈ items :=
    mem_items_of_mem_membersOf hb hi
  have ne {i j : Item Rat} (hi : i ∈ membersOf depth items b) (hj : j ∈ membersOf depth items c) : i ≠ j := by
    rintro rfl
    exact hne (eq_of_mem_membersOf hb hc hi hj)
  -- first the item of the one block is exchanged, then that of the other
  have hij₀ : Before items i j₀ := by
    refine (before_or_before (mem hb hi) (mem hc hj₀) (ne hi hj₀)).resolve_right fun hlt => ?_
    exact ne (mem_membersOf_of_between hn hd hi₀ (mem hc hj₀) hi h hlt) hj₀ rfl
  refine (before_or_before (mem hb hi) (mem hc hj) (ne hi hj)).resolve_right fun hlt => ?_
  exact ne hi (mem_membersOf_of_between hn hd hj (mem hb hi) hj₀ hlt hij₀) rfl

-- The blocks come in the order of their items, since their positions do.
theorem pairwise_blocks (hn : items.Nodup) (hd : Apart depth items) : (Layers.blocks depth items).Pairwise fun b c =>
    ∀ i ∈ membersOf depth items b, ∀ j ∈ membersOf depth items c, Before items i j := by
  let sorted := (keyed depth items).mergeSort fun a b => a.2 ≤ b.2
  have hsorted : sorted.Pairwise fun a b => a.2 ≤ b.2 :=
    List.pairwise_mergeSort' (Order.Preimage Prod.snd (· ≤ ·)) (keyed depth items)
  have hnodup : sorted.Pairwise fun a b => a.1 ≠ b.1 :=
    List.pairwise_map.mp (nodup_blocks hn : (Layers.blocks depth items).Nodup)
  have amid {x : Block Rat × Rat} (hx : x ∈ sorted) : x.1 ∈ Layers.blocks depth items ∧
      Amid items (membersOf depth items x.1) x.2 :=
    ⟨List.mem_map_of_mem hx, amid_of_mem_keyed ((List.mergeSort_perm ..).mem_iff.mp hx)⟩
  rw [blocks_eq, List.pairwise_map]
  refine (hsorted.and hnodup).imp_of_mem fun {x y} hx hy ⟨hle, hne⟩ i hi j hj => ?_
  -- an item of the left block that is not right of the block's position, and one of the right block not left of it
  obtain ⟨hxb, ⟨i₀, hi₀, m, hm, hmx⟩, _⟩ := amid hx
  obtain ⟨hyb, _, ⟨j₀, hj₀, n, hnj, hny⟩⟩ := amid hy
  have hmn : m ≤ n := by exact_mod_cast hmx.trans (hle.trans hny)
  have hmn : m ≠ n := by
    rintro rfl
    obtain rfl := Option.some.inj (hm.symm.trans hnj)
    exact hne (eq_of_mem_membersOf hxb hyb hi₀ hj₀)
  exact before_of_before hn hd hxb hyb hne hi₀ hj₀ ⟨m, n, by omega, hm, hnj⟩ hi hj

theorem relabel_self (blocks : List (Block Rat)) : relabel blocks (blocks.filterMap Block.group?) = blocks := by
  induction blocks
  case nil => rfl
  case cons b blocks hi =>
    cases b
    case single => rw [List.filterMap_cons_none (by rfl), relabel, hi]
    case group => rw [List.filterMap_cons_some (by rfl), relabel, hi]

theorem exists_mem_group {g : String} (hb : Block.group g ∈ Layers.blocks depth items) :
    ∃ i, i ∈ membersOf depth items (Block.group g) := by
  have hb := (blocks_perm depth items).mem_iff.mp hb
  simp only [List.mem_append, List.mem_map, reduceCtorEq, and_false, exists_false, false_or, Block.group.injEq,
    exists_eq_right, List.mem_eraseDups, List.mem_filterMap] at hb
  obtain ⟨i, hi, hg⟩ := hb
  exact ⟨i, List.mem_filter.mpr ⟨hi, by simpa using hg⟩⟩

-- Where groups side by side stand in the order asked for, the places of the groups are their own.
theorem outline_eq_blocks (hb : Below q (levels + 1) items) (hn : items.Nodup) (hd : Apart q.length items)
    (ho : items.Pairwise (InOrder order)) : outline order q.length items = Layers.blocks q.length items := by
  have hsorted : ((Layers.blocks q.length items).filterMap Block.group?).Pairwise fun g h => place order g ≤ place order h := by
    refine List.pairwise_filterMap.mpr ((pairwise_blocks hn hd).imp_of_mem fun {b c} hbm hcm h g hg k hk => ?_)
    cases b <;> cases c
    case group.group g' k' =>
      obtain rfl := Option.some.inj hg
      obtain rfl := Option.some.inj hk
      obtain ⟨i, hi⟩ := exists_mem_group hbm
      obtain ⟨j, hj⟩ := exists_mem_group hcm
      by_cases he : g' = k'
      case pos => exact he ▸ le_rfl
      case neg =>
        have below {i : Item Rat} {g : String} (hi : i ∈ membersOf q.length items (Block.group g)) : q ++ [g] <+: i.path :=
          (concat_prefix_iff (hb.path i (List.mem_of_mem_filter hi))).mpr (by simpa using (List.mem_filter.mp hi).right)
        exact (h i hi j hj).rel ho q g' k' (below hi) (below hj) he
    case single.single => cases hg
    case single.group => cases hg
    case group.single => cases hk
  have hqueue : queueOf order q.length items = (Layers.blocks q.length items).filterMap Block.group? :=
    List.mergeSort_of_pairwise (by simpa using hsorted)
  rw [outline, hqueue, relabel_self]

-- The blocks of a rank hold its items in their order.
theorem flatMap_membersOf (hn : items.Nodup) (hd : Apart depth items) :
    (Layers.blocks depth items).flatMap (membersOf depth items) = items := by
  have hperm : ((Layers.blocks depth items).flatMap (membersOf depth items)).Perm items := by
    refine flatMap_items_perm.trans (((filterMap_single?_blocks_perm depth items).append
      ((filterMap_group?_blocks_perm depth items).flatMap_right _)).trans (perm_filter_keys (nodup_eraseDups _) ?_))
    intro i hi g hg
    rw [List.mem_eraseDups, List.mem_filterMap]
    exact ⟨i, hi, hg⟩
  refine hperm.eq_of_pairwise (fun i j _ _ hij hji => absurd hji (hij.asymm hn)) ?_ (pairwise_before items)
  refine List.pairwise_flatMap.mpr ⟨fun b _ => ?_, pairwise_blocks hn hd⟩
  cases b
  case single => exact List.pairwise_singleton ..
  case group => exact (pairwise_before items).filter _

-- A rank in which groups are contiguous and stand in the order asked for stays as it is. By induction on the levels:
-- so do the contents of its groups.
theorem arrange_eq_self (hb : Below q levels items) (hn : items.Nodup)
    (hd : ∀ p : List String, q.length < p.length → Clustered (fun i => p <+: i.path) items)
    (ho : items.Pairwise (InOrder order)) : arrange order levels q.length items = items := by
  induction levels generalizing q items
  case zero => rfl
  case succ levels hi =>
    have hapart : Apart q.length items := by
      intro g i j k hs hgi hgk
      have mem {x : Item Rat} (hx : x ∈ [i, j, k]) : q <+: x.path := hb.path x (hs.subset hx)
      have := hd (q ++ [g]) (by simp) i j k hs ((concat_prefix_iff (mem (by simp))).mpr hgi)
        ((concat_prefix_iff (mem (by simp))).mpr hgk)
      exact (concat_prefix_iff (mem (by simp))).mp this
    have hcontent (g : String) : contentOf order levels q.length items g =
        items.filter fun i => i.path[q.length]? = some g := by
      have := hi (hb.filter g) (hn.filter _) (fun p hp => (hd p (by simp at hp; omega)).sublist List.filter_sublist)
        (ho.filter _)
      simpa [contentOf] using this
    rw [arrange_succ, outline_eq_blocks hb hn hapart ho, funext hcontent]
    exact flatMap_membersOf hn hapart

end Layers

end LayeredDiagram
