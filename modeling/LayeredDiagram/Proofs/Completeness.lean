import LayeredDiagram.Proofs.Arrangement
import LayeredDiagram.Proofs.Existence
import LayeredDiagram.Proofs.Tables
/-!
What a layout consists of. Every real edge between different nodes has a chain without gaps that reserves the room for
its label once. The items of a group are on consecutive ranks, and a node or a placeholder begins and ends them: bends
and fillers only ever stand between such items. The tables of a layout have an entry for everything that is drawn and
no other one, and routes run from centre to centre.
-/

namespace LayeredDiagram

open LayeredDiagram.Group

variable {α : Type} [Scalar α] {nodes : List (SizedNode α)} {edges : List (SizedEdge α)} {spacing : Spacing α}
variable {entries : List Entry} {groups : List Group} {e : Entry} {i : Item α} {c : Chain α} {g : String} {k r : Nat}

namespace SizedEdge

-- The end that is drawn above the other one.
def upper (e : SizedEdge α) (isReversed : Bool) : String :=
  if isReversed then e.target else e.source

def lower (e : SizedEdge α) (isReversed : Bool) : String :=
  if isReversed then e.source else e.target

end SizedEdge

-- A chain has one item on each rank from its upper to its lower end, and one of them strictly between the ends keeps
-- the room for the label, if there is any.
structure Chain.Spans (items : List (Item α)) (ranks : Ranking String) (e : SizedEdge α) (c : Chain α) : Prop where
  items_subset : c.items ⊆ items
  head : c.items.head?.map (·.slot) = some (.node (e.upper c.isReversed))
  last : c.items.getLast?.map (·.slot) = some (.node (e.lower c.isReversed))
  rank_lt : ranks.rank (e.upper c.isReversed) < ranks.rank (e.lower c.isReversed)
  map_rank : c.items.map (·.rank) = List.range' (ranks.rank (e.upper c.isReversed))
    (ranks.rank (e.lower c.isReversed) - ranks.rank (e.upper c.isReversed) + 1)
  countP_label : c.items.countP (·.kind = .label) = if e.hasLabel then 1 else 0
  label : ∀ i ∈ c.items, i.kind = .label → ranks.rank (e.upper c.isReversed) < i.rank ∧
    i.rank < ranks.rank (e.lower c.isReversed) ∧ i.width = e.labelWidth ∧ i.height = e.labelHeight

theorem Chain.spans_of_mem (hw : WellFormed nodes edges entries) (hc : c ∈ chainsOf nodes edges spacing entries)
    {e : SizedEdge α} (he : edges[c.edge]? = some e) :
    c.Spans (Stock.ofNodes nodes edges spacing entries).items (ranksOf nodes edges) e := by
  have ⟨o, ho, _, hof, upper, lower, h⟩ := exists_orientation_of_mem hc he
  have hends : o.upper = e.upper c.isReversed ∧ o.lower = e.lower c.isReversed := by
    have hr : c.isReversed = o.isReversed := by rw [h.eq]
    rcases hof.ends with ⟨hu, hl, hn⟩ | ⟨hu, hl, hn⟩ <;> simp [SizedEdge.upper, SizedEdge.lower, hr, hn, hu, hl]
  have hlt := hw.rank_lt ho
  have hru := rank_of_mem_nodeItemsOf h.upper_mem h.upper_slot
  have hrl := rank_of_mem_nodeItemsOf h.lower_mem h.lower_slot
  have hmap := h.map_rank_items (hru ▸ hrl ▸ hlt)
  rw [hru, hrl] at hmap
  rw [hends.left, hends.right] at hlt hmap
  constructor
  case items_subset => exact fun i hi => Stock.mem_items_of_mem_chain hc hi
  case head => rw [h.eq, List.cons_append, List.head?_cons, Option.map_some, h.upper_slot, hends.left, h.eq]
  case last => rw [h.eq, List.getLast?_concat, Option.map_some, h.lower_slot, hends.right, h.eq]
  case rank_lt => exact hlt
  case map_rank => exact hmap
  case countP_label => exact countP_label_of_mem hw hc he
  case label =>
    intro i hi hk
    have hb := bendAt_of_mem_bends (h.inner_eq ▸ h.mem_inner_of_label hi hk)
    rw [← hends.left, ← hends.right, ← hru, ← hrl]
    rcases hb.kind with ⟨_, _, hw, hh⟩ | ⟨hd, _⟩
    · exact ⟨hb.upper_lt, hb.lt_lower, hw, hh⟩
    · cases hd.symm.trans hk

namespace Stock

-- A rank with a node or a placeholder of a group or of a group inside it.
def Holds (s : Stock α) (g : String) (r : Nat) : Prop :=
  ∃ i ∈ s.items, g ∈ i.path ∧ i.rank = r ∧ (i.kind = .node ∨ i.kind = .placeholder)

-- A group has items on all ranks of its span and on no others, and the span begins and ends with content.
structure Spanned (s : Stock α) (g : String) : Prop where
  mem_ranksOf_iff : ∀ r, r ∈ Item.ranksOf s.items g ↔ (s.span g).1 ≤ r ∧ r ≤ (s.span g).2
  first : s.Holds g (s.span g).1
  last : s.Holds g (s.span g).2

-- Between ranks with content.
def Enclosed (s : Stock α) (g : String) (r : Nat) : Prop :=
  (∃ a, s.Holds g a ∧ a ≤ r) ∧ ∃ b, s.Holds g b ∧ r ≤ b

omit [Scalar α] in
theorem Holds.enclosed {s : Stock α} (h : s.Holds g r) : s.Enclosed g r :=
  ⟨⟨r, h, le_rfl⟩, r, h, le_rfl⟩

theorem enclosed_of_mem_content (hi : i ∈ contentAndPlaceholders nodes edges spacing entries) (hg : g ∈ i.path) :
    (ofNodes nodes edges spacing entries).Enclosed g i.rank := by
  have node {j : Item α} (hj : j ∈ nodeItemsOf nodes edges spacing entries) (hgj : g ∈ j.path) :
      (ofNodes nodes edges spacing entries).Holds g j.rank :=
    ⟨j, mem_items_of_mem_nodeItems hj, hgj, rfl, .inl (kind_of_mem_nodeItemsOf hj)⟩
  rcases List.mem_append.mp hi with hc | hp
  · rcases List.mem_append.mp hc with hn | hb
    · exact (node hn hg).enclosed
    · -- a bend is in the groups that are around both ends of its edge
      have ⟨c, hc, hb⟩ := List.mem_flatMap.mp hb
      have ⟨o, _, _, _, upper, lower, h⟩ := Chain.exists_connects_of_mem hc
      have hb := Chain.bendAt_of_mem_bends (h.inner_eq ▸ hb)
      rw [hb.path] at hg
      exact ⟨⟨_, node h.upper_mem ((Chain.commonPath_prefix_left ..).subset hg), hb.upper_lt.le⟩,
        _, node h.lower_mem ((Chain.commonPath_prefix_right ..).subset hg), hb.lt_lower.le⟩
  · have ⟨f, _, hf⟩ := List.mem_filterMap.mp hp
    have hk : i.kind = .placeholder := by rw [(placeholder?_eq_some hf).right.right]
    exact Holds.enclosed ⟨i, contentAndPlaceholders_subset hi, hg, rfl, .inr hk⟩

-- Fillers do not stand outside the content of any group.
theorem enclosed_of_mem_items (hf : IsForest entries) (g : String) :
    ∀ i ∈ (ofNodes nodes edges spacing entries).items, g ∈ i.path →
      (ofNodes nodes edges spacing entries).Enclosed g i.rank := by
  refine forall_fillAll (P := (ofNodes nodes edges spacing entries).Enclosed g) (Q := IsPath entries) ?hP ?ht ?h
  case hP =>
    intro a b r ⟨⟨a', ha', haa⟩, _⟩ ⟨_, b', hb', hbb⟩ har hrb
    exact ⟨⟨a', ha', haa.trans har⟩, b', hb', hrb.trans hbb⟩
  case ht =>
    intro f hfm
    have hfm := List.mem_reverse.mp hfm
    refine ⟨IsForest.isPath_path hfm, fun hg p hp hfp => ?_⟩
    exact ((hf.mem_iff_path_prefix hp hfm).mp hfp).subset hg
  case h =>
    intro i hi
    exact ⟨isPath_of_mem_items hf (contentAndPlaceholders_subset hi), enclosed_of_mem_content hi⟩

end Stock

theorem Arranged.spanned {place : String → Nat} {a : Arrangement α} (h : Arranged entries place a) (he : e ∈ entries)
    (hs : a.stock = Stock.ofNodes nodes edges spacing entries) : a.stock.Spanned e.id := by
  have enclosed {i : Item α} (hi : i ∈ a.stock.items) (hg : e.id ∈ i.path) : a.stock.Enclosed e.id i.rank := by
    rw [hs] at hi ⊢
    exact Stock.enclosed_of_mem_items h.forest e.id i hi hg
  have within {r : Nat} (hr : a.stock.Holds e.id r) : (a.stock.span e.id).1 ≤ r ∧ r ≤ (a.stock.span e.id).2 := by
    obtain ⟨i, hi, hg, rfl, _⟩ := hr
    exact h.span_le he hi hg
  constructor
  case mem_ranksOf_iff =>
    intro r
    rw [Stock.mem_ranksOf_iff]
    constructor
    · rintro ⟨i, hi, hg, rfl⟩
      exact h.span_le he hi hg
    · exact fun ⟨hf, hl⟩ => h.exists_item_of_span he hf hl
  case first =>
    obtain ⟨i, hi, hg, hr⟩ := h.exists_first he
    obtain ⟨⟨a', ha, hle⟩, _⟩ := enclosed hi hg
    exact le_antisymm (hle.trans hr.le) (within ha).left ▸ ha
  case last =>
    obtain ⟨i, hi, hg, hr⟩ := h.exists_last he
    obtain ⟨_, b, hb, hle⟩ := enclosed hi hg
    exact le_antisymm (within hb).right (hr.symm.le.trans hle) ▸ hb

-- A list has the elements with a property, each of them once.
def Enumerates {β : Type} (l : List β) (p : β → Prop) : Prop :=
  l.Nodup ∧ ∀ x, x ∈ l ↔ p x

-- A layout and its arrangement have everything that the graph asks for, and nothing else.
structure RawLayout.Complete (nodes : List (SizedNode α)) (edges : List (SizedEdge α)) (entries : List Entry)
    (a : Arrangement α) (raw : RawLayout α) : Prop where
  ranks : raw.ranks = a.ranks
  chains : Enumerates (a.stock.chains.map (·.edge)) fun k =>
    ∃ e, edges[k]? = some e ∧ e.kind = .real ∧ e.source ≠ e.target
  spans : ∀ c ∈ a.stock.chains, ∀ e, edges[c.edge]? = some e → c.Spans a.stock.items a.ranks e
  groups : ∀ e ∈ entries, a.stock.Spanned e.id
  routes : Enumerates (raw.routes.map (·.1)) fun k => ∃ e, edges[k]? = some e ∧ e.kind = .real
  labelAnchors : Enumerates (raw.labelAnchors.map (·.1)) fun k =>
    ∃ e, edges[k]? = some e ∧ e.kind = .real ∧ e.hasLabel
  placeholders : Enumerates (raw.placeholders.map (·.1)) fun g =>
    ∃ e ∈ entries, e.id = g ∧ e.children = [] ∧ ∀ n ∈ nodes, owner? entries n.id ≠ some e
  ends : ∀ k e, edges[k]? = some e → e.kind = .real → e.source ≠ e.target →
    ∃ points, raw.routes.lookup k = some points ∧ points ≠ [] ∧
      points.head? = raw.centers.lookup e.source ∧ points.getLast? = raw.centers.lookup e.target

namespace Solution

variable {s : Solution α} {ranks : Ranking String} {e : SizedEdge α}

-- The polyline of a chain runs from the centre of the upper node to that of the lower one.
theorem chainPoints_ends (hn : (s.stock.items.map (·.slot)).Nodup) (h : c.Spans s.stock.items ranks e) :
    s.chainPoints c ≠ [] ∧ (s.chainPoints c).head? = s.nodeCenters.lookup (e.upper c.isReversed) ∧
      (s.chainPoints c).getLast? = s.nodeCenters.lookup (e.lower c.isReversed) := by
  have ⟨i, hi, his⟩ := Option.map_eq_some_iff.mp h.head
  have ⟨j, hj, hjs⟩ := Option.map_eq_some_iff.mp h.last
  rw [lookup_nodeCenters_of_slot hn (h.items_subset (List.mem_of_mem_head? hi)) his,
    lookup_nodeCenters_of_slot hn (h.items_subset (List.mem_of_getLast? hj)) hjs]
  refine ⟨by simp [chainPoints, hi], by simp [chainPoints, hi], ?_⟩
  rw [chainPoints, hj, Option.map_some, Option.toList_some, List.getLast?_concat]

-- The route of an edge runs from the centre of its source to that of its target.
theorem chainRoute_ends (hn : (s.stock.items.map (·.slot)).Nodup) (h : c.Spans s.stock.items ranks e) :
    s.chainRoute c ≠ [] ∧ (s.chainRoute c).head? = s.nodeCenters.lookup e.source ∧
      (s.chainRoute c).getLast? = s.nodeCenters.lookup e.target := by
  have ⟨hne, hhead, hlast⟩ := chainPoints_ends hn h
  unfold chainRoute
  split
  case isTrue hr =>
    simp only [SizedEdge.upper, SizedEdge.lower, hr, if_true] at hhead hlast
    exact ⟨by simpa using hne, by rw [List.head?_reverse, hlast], by rw [List.getLast?_reverse, hhead]⟩
  case isFalse hr =>
    simp only [SizedEdge.upper, SizedEdge.lower, hr] at hhead hlast
    exact ⟨hne, hhead, hlast⟩

theorem complete_toRaw {place : String → Nat} (hw : WellFormed nodes edges entries)
    (hs : s.stock = Stock.ofNodes nodes edges spacing entries) (hr : s.ranks = ranksOf nodes edges)
    (h : Arranged entries place s.toArrangement) (reach : α) :
    (s.toRaw nodes edges reach).Complete nodes edges entries s.toArrangement := by
  have hchains : s.stock.chains = chainsOf nodes edges spacing entries := congrArg Stock.chains hs
  have spans {c : Chain α} (hc : c ∈ chainsOf nodes edges spacing entries) {e : SizedEdge α}
      (he : edges[c.edge]? = some e) : c.Spans s.stock.items s.ranks e := by
    rw [hs, hr]
    exact Chain.spans_of_mem hw hc he
  constructor
  case ranks => rfl
  case chains =>
    rw [hchains]
    exact ⟨Chain.edge_nodup .., fun k => Chain.mem_map_edge_iff hw⟩
  case spans => exact fun c hc e he => spans (hchains ▸ hc) he
  case groups => exact fun e he => h.spanned he hs
  case routes => exact ⟨nodup_keys_routes hw hs reach, fun k => mem_keys_routes_iff hw hs reach⟩
  case labelAnchors => exact ⟨nodup_keys_labelAnchors hw hs reach, fun k => mem_keys_labelAnchors_iff hw hs reach⟩
  case placeholders =>
    refine ⟨nodup_keys_placeholders h.slot_nodup, fun g => mem_keys_placeholders_iff.trans ?_⟩
    rw [hs]
    exact Stock.exists_placeholder_iff h.forest
  case ends =>
    intro k e he hk hn
    obtain ⟨c, hc, rfl⟩ := List.mem_map.mp ((Chain.mem_map_edge_iff hw).mpr ⟨e, he, hk, hn⟩)
    refine ⟨s.chainRoute c, ?_, chainRoute_ends h.slot_nodup (spans hc he)⟩
    refine lookup_of_mem (nodup_keys_routes hw hs reach) (List.mem_append_left _ ?_)
    exact List.mem_map.mpr ⟨c, hchains ▸ hc, rfl⟩

end Solution

namespace RawLayout

-- Graphs without nodes are not looked at any further.
theorem ofGraph_complete (hw : WellFormed nodes edges (forest [] groups)) (sweeps : Nat) (spacing : Spacing α) :
    ∃ raw, ofGraph sweeps nodes edges spacing groups = .ok raw ∧ (nodes = [] → raw = {}) ∧
      (nodes ≠ [] → raw.Complete nodes edges (forest [] groups)
        (Arrangement.ofGraph sweeps nodes edges spacing (forest [] groups))) := by
  by_cases hn : nodes = []
  case pos => exact ⟨{}, by simp [ofGraph, hn], fun _ => rfl, fun h => absurd hn h⟩
  case neg =>
    obtain ⟨place, h⟩ := Arrangement.exists_arranged hw sweeps spacing
    let s := Solution.solve sweeps nodes edges spacing (forest [] groups)
    refine ⟨s.toRaw nodes edges spacing.selfLoop, ?_, fun h => absurd h hn, fun _ => ?_⟩
    · simp [ofGraph, hn, Register.error?_eq_none_iff.mpr hw, s]
    · exact Solution.complete_toRaw (s := s) hw rfl rfl h spacing.selfLoop

-- Nested groups beside an empty one.
def spareGroup : List Group :=
  Arrangement.nestedGroups.groups ++ [{ id := "spare" }]

theorem ofGraph_complete_spareGroup :
    WellFormed Arrangement.nestedGroups.nodes Arrangement.nestedGroups.edges (forest [] spareGroup) ∧
    ∃ raw, ofGraph 4 Arrangement.nestedGroups.nodes Arrangement.nestedGroups.edges Spacing.standard spareGroup =
        .ok raw ∧
      raw.Complete Arrangement.nestedGroups.nodes Arrangement.nestedGroups.edges (forest [] spareGroup)
        (Arrangement.ofGraph 4 Arrangement.nestedGroups.nodes Arrangement.nestedGroups.edges Spacing.standard
          (forest [] spareGroup)) ∧
      "spare" ∈ raw.placeholders.map (·.1) := by
  have hw : WellFormed Arrangement.nestedGroups.nodes Arrangement.nestedGroups.edges (forest [] spareGroup) :=
    Register.error?_eq_none_iff.mp (by decide)
  have ⟨raw, hok, _, hc⟩ := ofGraph_complete hw 4 Spacing.standard
  have hc := hc (by simp [Arrangement.nestedGroups])
  exact ⟨hw, raw, hok, hc, (hc.placeholders.right "spare").mpr (by decide)⟩

-- Without nodes there is no room for an empty group.
theorem ofGraph_noNodes : WellFormed ([] : List (SizedNode Rat)) [] (forest [] [{ id := "empty" }]) ∧
    ∃ raw, ofGraph 4 ([] : List (SizedNode Rat)) [] Spacing.standard [{ id := "empty" }] = .ok raw ∧
      ¬Enumerates (raw.placeholders.map (·.1)) fun g => ∃ e ∈ forest [] [{ id := "empty" }], e.id = g ∧
        e.children = [] ∧ ∀ n ∈ ([] : List (SizedNode Rat)), owner? (forest [] [{ id := "empty" }]) n.id ≠ some e := by
  refine ⟨Register.error?_eq_none_iff.mp (by decide), {}, rfl, fun h => ?_⟩
  have he : (⟨"empty", some "", [], [], ["empty"]⟩ : Entry) ∈ forest [] [{ id := "empty" }] := by
    simp [forest, entries]
  have := (h.right "empty").mpr ⟨_, he, rfl, rfl, by simp⟩
  simp at this

end RawLayout

end LayeredDiagram
