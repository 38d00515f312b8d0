import LayeredDiagram.Proofs.MinimumFlows
import LayeredDiagram.Proofs.Overlap
import LayeredDiagram.Proofs.StraightDrawings
/-!
Loops beside their node. A loop leaves the right side of its node and comes back to it; around it is the loop of the
next edge, with the label between both. The room that is kept for all of them is what the next item in the rank keeps
its gap from.
-/

namespace LayeredDiagram

open LayeredDiagram.Group

-- How a loop runs: out of a side of its node at one height, and back to it at another.
structure Handle where
  side : Rat
  outer : Rat
  upper : Rat
  lower : Rat

namespace Handle

variable {b : Bounds Rat}

def route (h : Handle) : List (Point Rat) :=
  [⟨h.side, h.upper⟩, ⟨h.outer, h.upper⟩, ⟨h.outer, h.lower⟩, ⟨h.side, h.lower⟩]

theorem route_injective : Function.Injective route := by
  intro h h' he
  simp only [route, List.cons.injEq, Point.mk.injEq] at he
  have ⟨⟨hside, hupper⟩, ⟨houter, _⟩, ⟨_, hlower⟩, _⟩ := he
  cases h
  cases h'
  simp_all

-- On the right side of a box, between its top and its bottom.
structure On (h : Handle) (b : Bounds Rat) : Prop where
  side : h.side = b.right
  outer : b.right < h.outer
  upper : b.top < h.upper
  order : h.upper < h.lower
  lower : h.lower < b.bottom

-- Further out, further up and further down than another one.
structure Encloses (h h' : Handle) : Prop where
  outer : h'.outer < h.outer
  upper : h.upper < h'.upper
  lower : h'.lower < h.lower

end Handle

namespace Loop

variable {loops : List (Loop Rat)} {l m : Loop Rat} {spacing : Spacing Rat} {edges : List (SizedEdge Rat)} {v : String}

-- The loops of a node are in their slots from the inside to the outside, within the reach of the node.
structure Slotted (loops : List (Loop Rat)) : Prop where
  reach_nonneg : ∀ v, 0 ≤ reach loops v
  inner_nonneg : ∀ l ∈ loops, 0 ≤ l.inner
  outer_le : ∀ l ∈ loops, l.outer ≤ reach loops l.node
  slot_lt : ∀ l ∈ loops, l.slot < (ofNode loops l.node).length
  pairwise : loops.Pairwise fun l m => l.node = m.node → l.outer ≤ m.inner ∧ l.slot < m.slot

theorem slotted_nil : Slotted [] where
  reach_nonneg v := by norm_num [reach, ofNode]
  inner_nonneg := by simp
  outer_le := by simp
  slot_lt := by simp
  pairwise := .nil

theorem ofNode_concat : ofNode (loops ++ [l]) v = if l.node = v then ofNode loops v ++ [l] else ofNode loops v := by
  unfold ofNode
  by_cases h : l.node = v
  case pos => simp [h]
  case neg => simp [h]

-- One more loop outside all others of its node.
theorem Slotted.concat (h : Slotted loops) (hi : l.inner = reach loops l.node) (ho : l.inner ≤ l.outer)
    (hs : l.slot = (ofNode loops l.node).length) : Slotted (loops ++ [l]) := by
  have hinner : 0 ≤ l.inner := hi ▸ h.reach_nonneg l.node
  constructor
  case reach_nonneg =>
    intro v
    rw [reach_concat]
    split
    case isTrue => exact hinner.trans ho
    case isFalse => exact h.reach_nonneg v
  case inner_nonneg =>
    intro m hm
    cases List.mem_append.mp hm
    case inl hm => exact h.inner_nonneg m hm
    case inr hm => exact List.mem_singleton.mp hm ▸ hinner
  case outer_le =>
    intro m hm
    rw [reach_concat]
    cases List.mem_append.mp hm
    case inl hm =>
      have := h.outer_le m hm
      split
      case isTrue hn => exact (hn ▸ this).trans (hi ▸ ho)
      case isFalse => exact this
    case inr hm => rw [List.mem_singleton.mp hm, if_pos rfl]
  case slot_lt =>
    intro m hm
    rw [ofNode_concat]
    cases List.mem_append.mp hm
    case inl hm =>
      have := h.slot_lt m hm
      split
      case isTrue hn =>
        rw [List.length_append]
        omega
      case isFalse => exact this
    case inr hm =>
      rw [List.mem_singleton.mp hm, if_pos rfl, hs]
      simp
  case pairwise =>
    rw [List.pairwise_append]
    refine ⟨h.pairwise, List.pairwise_singleton .., fun m hm k hk hn => ?_⟩
    rw [List.mem_singleton.mp hk] at hn ⊢
    rw [hi, hs, ← hn]
    exact ⟨h.outer_le m hm, h.slot_lt m hm⟩

theorem slotted_all (hs : 0 ≤ spacing.selfLoop) (edges : List (SizedEdge Rat)) : Slotted (all spacing edges) :=
  all_induction slotted_nil fun _ e _ _ _ _ h => h.concat rfl (by simpa using room_nonneg hs e) rfl

-- Loops are placed in the order of their edges.
theorem pairwise_edge (spacing : Spacing Rat) (edges : List (SizedEdge Rat)) :
    (all spacing edges).Pairwise fun l m => l.edge < m.edge := by
  have hedges : ((all spacing edges).map (·.edge)).Pairwise (· < ·) := by
    rw [map_edge_all]
    refine List.Pairwise.sublist (List.filter_sublist.map _) ?_
    rw [List.zipIdx_map_snd]
    exact List.pairwise_lt_range'
  exact List.pairwise_map.mp hedges

-- Of two loops of a node, the one of the later edge is outside.
theorem outside (hs : 0 ≤ spacing.selfLoop) (hl : l ∈ all spacing edges) (hm : m ∈ all spacing edges)
    (hn : l.node = m.node) (he : l.edge < m.edge) : l.outer ≤ m.inner ∧ l.slot < m.slot := by
  have hboth := (pairwise_edge spacing edges).and (slotted_all hs edges).pairwise
  cases rel_or_rel_of_pairwise hboth hl hm fun h => absurd (congrArg Loop.edge h) he.ne
  case inl h => exact h.right hn
  case inr h => exact absurd h.left he.asymm

end Loop

namespace Solution

variable {s : Solution Rat} {reach : Rat} {n : SizedNode Rat} {center : Point Rat} {l m : Loop Rat} {e : SizedEdge Rat}

-- How the route of a loop runs.
def handle (s : Solution Rat) (reach : Rat) (n : SizedNode Rat) (center : Point Rat) (l : Loop Rat) : Handle :=
  let right := center.x + n.width / 2
  let offset := n.height / 2 * ((l.slot + 1 : Nat) : Rat) / ((s.loopCount n.id + 1 : Nat) : Rat)
  ⟨right, right + l.inner + reach, center.y - offset, center.y + offset⟩

-- Slots share the height of the node.
theorem offset_lt (count : Nat) {i j : Nat} {height : Rat} (hh : 0 < height) (hij : i < j) :
    height * (i : Rat) / (count + 1 : Nat) < height * (j : Rat) / (count + 1 : Nat) := by
  have hpos : (0 : Rat) < (count + 1 : Nat) := by positivity
  have hij : (i : Rat) < j := by exact_mod_cast hij
  exact div_lt_div_of_pos_right (mul_lt_mul_of_pos_left hij hh) hpos

theorem on_handle (hh : 0 < n.height) (hr : 0 < reach) (hi : 0 ≤ l.inner) (hs : l.slot < s.loopCount n.id) :
    (s.handle reach n center l).On (Bounds.ofBox (Box.around center n.width n.height)) := by
  have hpos : (0 : Rat) < n.height / 2 := by linarith
  have hlow := offset_lt (s.loopCount n.id) hpos l.slot.succ_pos
  have hhigh := offset_lt (s.loopCount n.id) hpos (Nat.succ_lt_succ hs)
  have hcount : ((s.loopCount n.id + 1 : Nat) : Rat) ≠ 0 := by positivity
  rw [Nat.cast_zero, mul_zero, zero_div] at hlow
  rw [mul_div_cancel_right₀ _ hcount] at hhigh
  constructor <;> simp only [handle, Bounds.ofBox, Box.around] <;> linarith

theorem encloses_handle (hh : 0 < n.height) (hi : l.inner < m.inner) (hs : l.slot < m.slot) :
    (s.handle reach n center m).Encloses (s.handle reach n center l) := by
  have hpos : (0 : Rat) < n.height / 2 := by linarith
  have hoffset := offset_lt (s.loopCount n.id) hpos (Nat.succ_lt_succ hs)
  constructor <;> simp only [handle] <;> linarith

-- The label stands right of its own loop, and ends with the room of the loop.
theorem labelBounds_loopAnchor (s : Solution Rat) (reach : Rat) (n : SizedNode Rat) (center : Point Rat) (l : Loop Rat)
    (e : SizedEdge Rat) : (s.handle reach n center l).outer + 2 =
      (e.labelBounds (loopAnchor reach n center l e)).left ∧
    (e.labelBounds (loopAnchor reach n center l e)).right =
      (s.handle reach n center l).outer + 2 + e.labelWidth := by
  have hgap : (Loop.labelGap : Rat) = 4 := rfl
  constructor <;> simp only [handle, SizedEdge.labelBounds, Bounds.ofBox, Box.around, loopAnchor, hgap] <;> ring

end Solution

namespace Spaced

variable {entries : List Entry} {place : String → Nat} {a : Arrangement Rat} {spacing : Spacing Rat} {x : Abscissae Rat}
variable {i j : Item Rat} {layer l₁ l₂ : List (Item Rat)}
variable (hA : Arranged entries place a) (hS : Spaced spacing entries a x)
include hA hS

theorem rightEdge_add_le_of_neighbours (hl : layer ∈ a.layers) (he : layer = l₁ ++ i :: j :: l₂) :
    i.rightEdge x + min spacing.node spacing.edge ≤ j.leftEdge x := by
  have hgap := hS.rightBound_add_gap_le hl he
  have ⟨_, hi, _⟩ := hS.bounds_hold hA (hA.mem_items hl (he ▸ by simp)) (Chain.commonPath_prefix_left i.path j.path)
  have ⟨hj, _, _⟩ := hS.bounds_hold hA (hA.mem_items hl (he ▸ by simp)) (Chain.commonPath_prefix_right i.path j.path)
  have hnode := min_le_left spacing.node spacing.edge
  have hedge := min_le_right spacing.node spacing.edge
  split at hgap <;> linarith

-- Whatever has its middle further to the right is behind.
theorem rightEdge_add_le_of_lt (hi : i ∈ a.stock.items) (hj : j ∈ a.stock.items) (hr : i.rank = j.rank)
    (hlt : x.value (.item i.slot) < x.value (.item j.slot)) :
    i.rightEdge x + min spacing.node spacing.edge ≤ j.leftEdge x := by
  have ⟨layer, hl, hil, hjl⟩ := hA.exists_layer_of_rank_eq hi hj hr
  have hij : i ≠ j := fun h => hlt.ne (congrArg (fun k : Item Rat => x.value (.item k.slot)) h)
  cases exists_eq_append_of_ne hil hjl hij
  case inl h =>
    have ⟨_, _, _, he⟩ := h
    exact hS.rightEdge_add_le_of_next hA hl he fun _ _ he => hS.rightEdge_add_le_of_neighbours hA hl he
  case inr h =>
    have ⟨_, _, _, he⟩ := h
    have hle := hS.rightEdge_le_leftEdge hA hl he
    have ⟨hiw, _, _⟩ := hS.items i hi
    have ⟨hjw, _, hje⟩ := hS.items j hj
    have := hiw.nonneg
    have := hjw.nonneg
    have := hje.nonneg
    simp only [Item.rightEdge, Item.leftEdge] at hle
    linarith

end Spaced

namespace SizedGraph

variable {g : SizedGraph Rat} {n : SizedNode Rat} {k : Nat} {e : SizedEdge Rat}

-- A loop at a node, which is to be drawn.
structure IsLoopAt (g : SizedGraph Rat) (n : SizedNode Rat) (k : Nat) (e : SizedEdge Rat) : Prop where
  edge : g.edges[k]? = some e
  kind : e.kind = .real
  source : e.source = n.id
  target : e.target = n.id

-- The loops at a node as they are drawn, each around those of earlier edges and their labels.
structure HandlesAt (g : SizedGraph Rat) (raw : RawLayout Rat) (n : SizedNode Rat) (b : Bounds Rat)
    (handle : Nat → Handle) : Prop where
  route : ∀ k e, g.IsLoopAt n k e → raw.routes.lookup k = some (handle k).route ∧ (handle k).On b
  nested : ∀ k e k' e', g.IsLoopAt n k e → g.IsLoopAt n k' e' → k < k' → (handle k').Encloses (handle k)
  label : ∀ k e, g.IsLoopAt n k e → e.hasLabel → ∃ anchor, raw.labelAnchors.lookup k = some anchor ∧
    (handle k).outer < (e.labelBounds anchor).left ∧
    ∀ k' e', g.IsLoopAt n k' e' → k < k' → (e.labelBounds anchor).right < (handle k').outer

-- The loops at a node and their labels end on the left of a vertical line, or at it.
structure HandlesEnd (g : SizedGraph Rat) (raw : RawLayout Rat) (n : SizedNode Rat) (handle : Nat → Handle) (x : Rat) :
    Prop where
  route : ∀ k e, g.IsLoopAt n k e → (handle k).outer ≤ x
  label : ∀ k e, g.IsLoopAt n k e → e.hasLabel → ∀ anchor, raw.labelAnchors.lookup k = some anchor →
    (e.labelBounds anchor).right ≤ x

theorem IsLoopAt.exists_loop (h : g.IsLoopAt n k e) : ∃ l ∈ Loop.all g.spacing g.edges, l.edge = k ∧ l.node = n.id ∧
    l.outer = l.inner + Loop.room g.spacing e := by
  have hloop : e.isLoop := beq_iff_eq.mpr (h.source.trans h.target.symm)
  have hmem : k ∈ (Loop.all g.spacing g.edges).map (·.edge) :=
    Loop.mem_map_edge_all_iff.mpr ⟨e, h.edge, h.kind, hloop⟩
  have ⟨l, hl, hk⟩ := List.mem_map.mp hmem
  have ⟨_, _, hnode, houter⟩ := Loop.edge_spec hl (hk ▸ h.edge)
  exact ⟨l, hl, hk, hnode.trans h.source, houter⟩

-- One way of running for every edge.
theorem exists_handle (g : SizedGraph Rat) (s : Solution Rat) (n : SizedNode Rat) (center : Point Rat) :
    ∃ handle : Nat → Handle, ∀ l ∈ Loop.all g.spacing g.edges,
      handle l.edge = s.handle g.spacing.selfLoop n center l := by
  have hone (k : Nat) : ∃ h : Handle, ∀ l ∈ Loop.all g.spacing g.edges, l.edge = k →
      h = s.handle g.spacing.selfLoop n center l := by
    by_cases hk : ∃ l ∈ Loop.all g.spacing g.edges, l.edge = k
    case pos =>
      have ⟨l, hl, hlk⟩ := hk
      refine ⟨s.handle g.spacing.selfLoop n center l, fun m hm hmk => ?_⟩
      rw [List.inj_on_of_nodup_map (Loop.edge_nodup g.spacing g.edges) hm hl (hmk.trans hlk.symm)]
    case neg => exact ⟨⟨0, 0, 0, 0⟩, fun l hl hlk => absurd ⟨l, hl, hlk⟩ hk⟩
  choose handle hhandle using hone
  exact ⟨handle, fun l hl => hhandle l.edge l hl rfl⟩

section Tables

variable {place : String → Nat} {s : Solution Rat} {l : Loop Rat} (hw : WellFormed g.nodes g.edges (forest [] g.groups))
variable (hs : s.stock = Stock.ofNodes g.nodes g.edges g.spacing (forest [] g.groups))
variable (hA : Arranged (forest [] g.groups) place s.toArrangement)
include hs

omit hs in
theorem itemOf_mem_ofNodes (hn : n ∈ g.nodes) :
    g.itemOf n ∈ (Stock.ofNodes g.nodes g.edges g.spacing (forest [] g.groups)).items :=
  Stock.mem_items_of_mem_nodeItems (mem_nodeItemsOf_iff.mpr ⟨n, hn, rfl⟩)

include hA in
theorem lookup_centers (hn : n ∈ g.nodes) : (g.rawOf s).centers.lookup n.id = some (s.center (g.itemOf n)) :=
  Solution.lookup_nodeCenters_of_slot hA.slot_nodup (hs ▸ itemOf_mem_ofNodes hn) rfl

include hw hA in
-- What is known about a loop is known about its node.
theorem loopData?_of_mem (hn : n ∈ g.nodes) (hl : l ∈ s.stock.loops) (hnl : l.node = n.id)
    (he : g.edges[l.edge]? = some e) : s.loopData? g.nodes g.edges l = some (n, s.center (g.itemOf n), e) := by
  have ⟨m, center, hdata⟩ := Solution.exists_loopData? hw hs hl he
  have ⟨hm, ⟨i, hi, hcenter⟩, _⟩ := Solution.loopData?_eq_some_iff.mp hdata
  have hmid : m.id = l.node := by simpa using List.find?_some hm
  have hslot : i.slot = .node l.node := by simpa using List.find?_some hi
  have hmn : m = n :=
    List.inj_on_of_nodup_map hw.nodes_nodup (List.mem_of_find?_eq_some hm) hn (hmid.trans hnl)
  have hin : i = g.itemOf n :=
    List.inj_on_of_nodup_map hA.slot_nodup (List.mem_of_find?_eq_some hi) (hs ▸ itemOf_mem_ofNodes hn)
      (hslot.trans (congrArg Slot.node hnl))
  rw [hdata, hcenter, hmn, hin]

include hw hA in
theorem lookup_routes_of_loop (hn : n ∈ g.nodes) (hl : l ∈ s.stock.loops) (hnl : l.node = n.id)
    (he : g.edges[l.edge]? = some e) : (g.rawOf s).routes.lookup l.edge =
      some (s.handle g.spacing.selfLoop n (s.center (g.itemOf n)) l).route := by
  refine lookup_of_mem (Solution.nodup_keys_routes hw hs _) (List.mem_append_right _ ?_)
  refine List.mem_filterMap.mpr ⟨l, hl, ?_⟩
  rw [loopData?_of_mem hw hs hA hn hl hnl he]
  rfl

include hw hA in
theorem lookup_labelAnchors_of_loop (hn : n ∈ g.nodes) (hl : l ∈ s.stock.loops) (hnl : l.node = n.id)
    (he : g.edges[l.edge]? = some e) (hb : e.hasLabel) : (g.rawOf s).labelAnchors.lookup l.edge =
      some (Solution.loopAnchor g.spacing.selfLoop n (s.center (g.itemOf n)) l e) := by
  refine lookup_of_mem (Solution.nodup_keys_labelAnchors hw hs _) (List.mem_append_right _ ?_)
  refine List.mem_filterMap.mpr ⟨l, hl, ?_⟩
  simp only [loopData?_of_mem hw hs hA hn hl hnl he]
  exact if_pos hb

variable {handle : Nat → Handle} (hself : 0 < g.spacing.selfLoop)
variable (hhandle : ∀ l ∈ Loop.all g.spacing g.edges,
  handle l.edge = s.handle g.spacing.selfLoop n (s.center (g.itemOf n)) l)
include hw hA hself hhandle

theorem handlesAt (hn : n ∈ g.nodes) (hh : 0 < n.height) :
    g.HandlesAt (g.rawOf s) n (g.nodeBounds s n) handle := by
  have hloops : s.stock.loops = Loop.all g.spacing g.edges := congrArg Stock.loops hs
  have hslotted := Loop.slotted_all hself.le g.edges
  have hnested {k k' : Nat} {e e' : SizedEdge Rat} (he : g.IsLoopAt n k e) (he' : g.IsLoopAt n k' e') (hk : k < k') :
      ∃ l ∈ Loop.all g.spacing g.edges, ∃ m ∈ Loop.all g.spacing g.edges, l.edge = k ∧ m.edge = k' ∧
        l.inner + Loop.room g.spacing e ≤ m.inner ∧ l.slot < m.slot := by
    have ⟨l, hl, hlk, hln, ho⟩ := he.exists_loop
    have ⟨m, hm, hmk, hmn, _⟩ := he'.exists_loop
    have ⟨hout, hslot⟩ := Loop.outside hself.le hl hm (hln.trans hmn.symm) (by rwa [hlk, hmk])
    exact ⟨l, hl, m, hm, hlk, hmk, ho ▸ hout, hslot⟩
  constructor
  case route =>
    intro k e he
    have ⟨l, hl, hk, hnl, _⟩ := he.exists_loop
    subst hk
    rw [hhandle l hl]
    refine ⟨lookup_routes_of_loop hw hs hA hn (hloops ▸ hl) hnl he.edge, ?_⟩
    refine Solution.on_handle hh hself (hslotted.inner_nonneg l hl) ?_
    rw [Solution.loopCount, hloops, ← hnl]
    exact hslotted.slot_lt l hl
  case nested =>
    intro k e k' e' he he' hk
    have ⟨l, hl, m, hm, hlk, hmk, hinner, hslot⟩ := hnested he he' hk
    have hroom := Loop.selfLoop_le_room g.spacing e
    rw [← hlk, ← hmk, hhandle l hl, hhandle m hm]
    exact Solution.encloses_handle hh (by linarith) hslot
  case label =>
    intro k e he hb
    have ⟨l, hl, hk, hnl, _⟩ := he.exists_loop
    have ⟨hleft, hright⟩ := Solution.labelBounds_loopAnchor s g.spacing.selfLoop n (s.center (g.itemOf n)) l e
    subst hk
    refine ⟨_, lookup_labelAnchors_of_loop hw hs hA hn (hloops ▸ hl) hnl he.edge hb, ?_, fun k' e' he' hk => ?_⟩
    · rw [hhandle l hl, ← hleft]
      linarith
    · have ⟨l', hl', m, hm, hlk, hmk, hinner, _⟩ := hnested he he' hk
      obtain rfl : l' = l := List.inj_on_of_nodup_map (Loop.edge_nodup g.spacing g.edges) hl' hl hlk
      have hgap : (Loop.labelGap : Rat) = 4 := rfl
      rw [Loop.room, if_pos hb, hgap] at hinner
      rw [hright, ← hmk, hhandle m hm]
      simp only [Solution.handle]
      linarith

-- They end within the room of the node.
theorem handlesEnd (hn : n ∈ g.nodes) {x : Rat} (hx : (g.itemOf n).rightEdge s.x ≤ x) :
    g.HandlesEnd (g.rawOf s) n handle x := by
  have hloops : s.stock.loops = Loop.all g.spacing g.edges := congrArg Stock.loops hs
  have hslotted := Loop.slotted_all hself.le g.edges
  have hreach {k : Nat} {e : SizedEdge Rat} (he : g.IsLoopAt n k e) : ∃ l ∈ Loop.all g.spacing g.edges,
      l.edge = k ∧ l.node = n.id ∧ l.inner + Loop.room g.spacing e ≤ (g.itemOf n).extra := by
    obtain ⟨l, hl, hk, hnl, ho⟩ := he.exists_loop
    have houter := hslotted.outer_le l hl
    rw [ho, hnl] at houter
    exact ⟨l, hl, hk, hnl, houter⟩
  have hwidth : (g.itemOf n).width = n.width := rfl
  have hcenter : (s.center (g.itemOf n)).x = s.x.value (.item (g.itemOf n).slot) := rfl
  rw [Item.rightEdge, hwidth, ← hcenter] at hx
  constructor
  case route =>
    intro k e he
    obtain ⟨l, hl, hk, _, hextra⟩ := hreach he
    have hroom := Loop.selfLoop_le_room g.spacing e
    rw [← hk, hhandle l hl]
    simp only [Solution.handle]
    linarith
  case label =>
    intro k e he hb anchor hanchor
    obtain ⟨l, hl, hk, hnl, hextra⟩ := hreach he
    obtain ⟨_, hright⟩ := Solution.labelBounds_loopAnchor s g.spacing.selfLoop n (s.center (g.itemOf n)) l e
    have hgap : (Loop.labelGap : Rat) = 4 := rfl
    subst hk
    rw [lookup_labelAnchors_of_loop hw hs hA hn (hloops ▸ hl) hnl he.edge hb] at hanchor
    rw [Loop.room, if_pos hb, hgap] at hextra
    rw [← Option.some.inj hanchor, hright]
    simp only [Solution.handle]
    linarith

end Tables

end SizedGraph

namespace RawLayout

variable {g : SizedGraph Rat} {n : SizedNode Rat}

theorem ofGraph_handles (hv : Register.error? g.nodes g.edges (forest [] g.groups) = none)
    (hself : 0 < g.spacing.selfLoop) (sweeps : Nat) (hn : n ∈ g.nodes) (hh : 0 < n.height) :
    ∃ raw center handle, ofGraph sweeps g.nodes g.edges g.spacing g.groups = .ok raw ∧
      raw.centers.lookup n.id = some center ∧
      g.HandlesAt raw n (Bounds.ofBox (Box.around center n.width n.height)) handle ∧
      (Measured g.nodes g.edges g.spacing → ∀ j ∈ (g.solution sweeps).stock.items, j.rank = (g.itemOf n).rank →
        center.x < ((g.solution sweeps).center j).x →
        g.HandlesEnd raw n handle (j.leftEdge (g.solution sweeps).x - min g.spacing.node g.spacing.edge)) := by
  have hw := Register.error?_eq_none_iff.mp hv
  have hnil : ¬g.nodes.isEmpty := by simpa using List.ne_nil_of_mem hn
  have ⟨place, hA⟩ := Arrangement.exists_arranged hw sweeps g.spacing
  have ⟨handle, hhandle⟩ := SizedGraph.exists_handle g (g.solution sweeps) n ((g.solution sweeps).center (g.itemOf n))
  have hraw : ofGraph sweeps g.nodes g.edges g.spacing g.groups = .ok (g.rawOf (g.solution sweeps)) := by
    simp only [ofGraph, if_neg hnil, hv]
  refine ⟨_, _, handle, hraw, SizedGraph.lookup_centers rfl hA hn, ?_, fun hm j hj hr hlt => ?_⟩
  · exact SizedGraph.handlesAt hw rfl hA hself hhandle hn hh
  · have hS := hA.spaced hm.spacing fun i hi => Stock.isMeasure_of_mem_items hm hi
    have hgap := hS.rightEdge_add_le_of_lt hA (SizedGraph.itemOf_mem_ofNodes hn) hj hr.symm hlt
    exact SizedGraph.handlesEnd hw rfl hA hself hhandle hn (le_sub_iff_add_le.mpr hgap)

def loopedNode : SizedNode Rat :=
  { id := "a", width := 40, height := 20 }

-- A labelled loop within another one, and a node beside them.
def looped (node selfLoop : Rat) : SizedGraph Rat where
  nodes := [loopedNode, { id := "b", width := 40, height := 20 }]
  edges := [.labelled "a" "a" (some "again") 30 10, .labelled "a" "a" none 0 0]
  groups := []
  spacing := { Spacing.standard with node, selfLoop }
  margin := ⟨40, 40⟩

theorem measured_looped {node selfLoop : Rat} (hn : IsMeasure node) (hs : IsMeasure selfLoop) :
    Measured (looped node selfLoop).nodes (looped node selfLoop).edges (looped node selfLoop).spacing where
  nodes := by simp [looped, loopedNode, IsMeasure.ofNat]
  edges := by simp [looped, SizedEdge.labelled, SizedEdge.plain, IsMeasure.ofNat, IsMeasure.zero]
  spacing := by simp [looped, Spacing.lengths, Spacing.standard, IsMeasure.ofNat, hn, hs]

theorem ofGraph_handles_looped : Register.error? (looped 40 20).nodes (looped 40 20).edges [] = none ∧
    0 < (looped 40 20).spacing.selfLoop ∧ loopedNode ∈ (looped 40 20).nodes ∧ 0 < loopedNode.height ∧
    ∃ raw center handle, ofGraph 4 (looped 40 20).nodes (looped 40 20).edges (looped 40 20).spacing [] = .ok raw ∧
      raw.centers.lookup "a" = some center ∧
      (looped 40 20).HandlesAt raw loopedNode (Bounds.ofBox (Box.around center 40 20)) handle ∧
      ∀ j ∈ ((looped 40 20).solution 4).stock.items, j.rank = ((looped 40 20).itemOf loopedNode).rank →
        center.x < (((looped 40 20).solution 4).center j).x →
        (looped 40 20).HandlesEnd raw loopedNode handle
          (j.leftEdge ((looped 40 20).solution 4).x - min 40 (looped 40 20).spacing.edge) := by
  have hv : Register.error? (looped 40 20).nodes (looped 40 20).edges (forest [] []) = none := by decide
  have hself : 0 < (looped 40 20).spacing.selfLoop := by decide
  have hn : loopedNode ∈ (looped 40 20).nodes := List.mem_cons_self
  have hh : 0 < loopedNode.height := by decide
  have ⟨raw, center, handle, hraw, hcenter, hat, hend⟩ := ofGraph_handles hv hself 4 hn hh
  exact ⟨hv, hself, hn, hh, raw, center, handle, hraw, hcenter, hat, hend (measured_looped (.ofNat 40) (.ofNat 20))⟩

end RawLayout

-- Two nodes side by side, and two loops in the gap between them.
namespace Crowded

open RawLayout

variable (node selfLoop : Rat)

abbrev solution : Solution Rat :=
  (looped node selfLoop).solution 4

section Items

-- The rooms of both loops.
def extra : Rat :=
  0 + (selfLoop + (4 + 30)) + selfLoop

def a : Item Rat :=
  ⟨.node "a", 0, 40, 20, .node, [], extra selfLoop⟩

def b : Item Rat :=
  ⟨.node "b", 0, 40, 20, .node, [], 0⟩

def stock : Stock Rat where
  entries := []
  items := [a selfLoop, b]
  chains := []
  loops := [⟨0, "a", 0, 0 + (selfLoop + (4 + 30)), 0⟩, ⟨1, "a", 0 + (selfLoop + (4 + 30)), extra selfLoop, 1⟩]

theorem stock_eq : (solution node selfLoop).stock = stock selfLoop := by
  with_unfolding_all rfl

theorem layers_eq : (solution node selfLoop).layers = [[a selfLoop, b]] := by
  have hlayers : Layers.ofStock 4 (stock selfLoop) = (stock selfLoop).layers :=
    Layers.ofStock_of_crossings_eq_zero rfl (fun _ _ _ => rfl) 4
  exact (congrArg (Layers.ofStock 4) (stock_eq node selfLoop)).trans hlayers

end Items

section Coordinates

-- The only length to keep.
def gap : Int :=
  Constraint.scaled (40 / 2 + extra selfLoop + node + 40 / 2 : Rat)

def arcs : List (Flow.Arc Variable) :=
  [⟨.item (.node "a"), .item (.node "b"), gap node selfLoop, 0, 0⟩]

theorem arcs_eq : (solution node selfLoop).arcs (looped node selfLoop).spacing [] = arcs node selfLoop := by
  rw [Arrangement.arcs, layers_eq, stock_eq]
  rfl

-- There are no segments that nodes could move along with.
theorem x_eq : (solution node selfLoop).x = Abscissae.ofLabels (Flow.place (arcs node selfLoop)) := by
  have hx : (solution node selfLoop).x = Abscissae.ofLayers (looped node selfLoop).spacing []
      (solution node selfLoop).stock.segments (solution node selfLoop).layers := rfl
  rw [hx, layers_eq, stock_eq]
  rfl

theorem wellFormed : WellFormed (looped node selfLoop).nodes (looped node selfLoop).edges (forest [] []) :=
  Register.error?_eq_none_iff.mp rfl

theorem arranged : ∃ place, Arranged [] place (solution node selfLoop).toArrangement :=
  Arrangement.exists_arranged (wellFormed node selfLoop) 4 (looped node selfLoop).spacing

theorem leftmost : Flow.Leftmost (arcs node selfLoop) fun v => (solution node selfLoop).x.value v := by
  have ⟨place, hA⟩ := arranged node selfLoop
  have hacyclic : Acyclic (Follows ((arcs node selfLoop).map Flow.Arc.ends)) :=
    arcs_eq node selfLoop ▸ hA.acyclic (looped node selfLoop).spacing
  simp only [x_eq, Abscissae.value_ofLabels]
  exact Flow.leftmost_place hacyclic

variable {node selfLoop}

theorem value_spec (h : 0 ≤ gap node selfLoop) : (solution node selfLoop).x.value (.item (.node "a")) = 0 ∧
    (solution node selfLoop).x.value (.item (.node "b")) = (gap node selfLoop : Rat) / 100 := by
  have hleast := leftmost node selfLoop
  have hgap : (0 : Rat) ≤ gap node selfLoop := Int.cast_nonneg h
  let y (v : Variable) : Rat := if v = .item (.node "b") then (gap node selfLoop : Rat) / 100 else 0
  have hkeeps : Flow.KeepsLengths (1 / 100) (arcs node selfLoop) y := by
    intro c hc
    rw [List.mem_singleton.mp hc]
    simp [y]
    linarith
  have hnonneg (v : Variable) : 0 ≤ y v := by
    simp only [y]
    split <;> linarith
  have hle := hleast.least y hkeeps hnonneg (by simp [Flow.placementCost, arcs])
  have ha := hle (.item (.node "a"))
  have hb := hle (.item (.node "b"))
  have hlength := hleast.keeps _ List.mem_cons_self
  have hzero := hleast.nonneg (.item (.node "a"))
  simp [y] at ha hb hlength hzero
  constructor <;> linarith

end Coordinates

section Room

-- Whether the loops end on the left of whatever is behind them, or at it.
def Clear : Prop :=
  ∃ raw center handle, RawLayout.ofGraph 4 (looped node selfLoop).nodes (looped node selfLoop).edges
      (looped node selfLoop).spacing (looped node selfLoop).groups = .ok raw ∧
    raw.centers.lookup loopedNode.id = some center ∧
    (looped node selfLoop).HandlesAt raw loopedNode
      (Bounds.ofBox (Box.around center loopedNode.width loopedNode.height)) handle ∧
    ∀ j ∈ (solution node selfLoop).stock.items, j.rank = ((looped node selfLoop).itemOf loopedNode).rank →
      center.x < ((solution node selfLoop).center j).x →
      (looped node selfLoop).HandlesEnd raw loopedNode handle (j.leftEdge (solution node selfLoop).x)

variable {node selfLoop}

theorem isLoopAt : (looped node selfLoop).IsLoopAt loopedNode 1 (.labelled "a" "a" none 0 0) :=
  ⟨rfl, rfl, rfl, rfl⟩

-- The outer loop takes up all of the room.
theorem outer_eq (hzero : (solution node selfLoop).x.value (.item (.node "a")) = 0) {b : Bounds Rat}
    {handle : Nat → Handle}
    (h : (looped node selfLoop).HandlesAt ((looped node selfLoop).rawOf (solution node selfLoop)) loopedNode b handle) :
    (handle 1).outer = 20 + extra selfLoop := by
  have ⟨place, hA⟩ := arranged node selfLoop
  let l : Loop Rat := ⟨1, "a", 0 + (selfLoop + (4 + 30)), extra selfLoop, 1⟩
  have hl : l ∈ (solution node selfLoop).stock.loops := by simp [stock_eq, stock, l]
  have hroute := SizedGraph.lookup_routes_of_loop (g := looped node selfLoop) (wellFormed node selfLoop) rfl hA
    List.mem_cons_self hl rfl rfl
  have hhandle := Handle.route_injective (Option.some.inj ((h.route 1 _ isLoopAt).left.symm.trans hroute))
  have hcenter : ((solution node selfLoop).center ((looped node selfLoop).itemOf loopedNode)).x = 0 := hzero
  rw [hhandle, Solution.handle, hcenter]
  simp only [loopedNode, looped, l, extra]
  ring

-- The other node starts before the end of the room.
theorem not_clear (hgap : 0 < gap node selfLoop) (hlt : (gap node selfLoop : Rat) / 100 < 40 + extra selfLoop) :
    ¬Clear node selfLoop := by
  intro ⟨raw, center, handle, hraw, hcenter, hat, hend⟩
  have ⟨ha, hb⟩ := value_spec hgap.le
  have ⟨place, hA⟩ := arranged node selfLoop
  have hok : RawLayout.ofGraph 4 (looped node selfLoop).nodes (looped node selfLoop).edges
      (looped node selfLoop).spacing (looped node selfLoop).groups =
        .ok ((looped node selfLoop).rawOf (solution node selfLoop)) := rfl
  obtain rfl := Except.ok.inj (hok.symm.trans hraw)
  have hlookup := SizedGraph.lookup_centers (g := looped node selfLoop) (n := loopedNode) rfl hA List.mem_cons_self
  obtain rfl := Option.some.inj (hlookup.symm.trans hcenter)
  have hb : (solution node selfLoop).x.value (.item b.slot) = (gap node selfLoop : Rat) / 100 := hb
  have hbehind : (solution node selfLoop).x.value (.item (.node "a")) <
      (solution node selfLoop).x.value (.item b.slot) := by
    rw [ha, hb]
    positivity
  have hend := (hend b (by simp [stock_eq, stock]) rfl hbehind).route 1 _ isLoopAt
  have hwidth : b.width = 40 := rfl
  rw [outer_eq ha hat, Item.leftEdge, hb, hwidth] at hend
  linarith

-- A negative gap takes away from the room, and so does the rounding of its length to whole hundredths.
theorem ofGraph_handles_crowded : (Register.error? (looped (-10) 20).nodes (looped (-10) 20).edges [] = none ∧
      gap (-10) 20 = 10400 ∧ ¬Clear (-10) 20) ∧
    Register.error? (looped 0 20.000000002).nodes (looped 0 20.000000002).edges [] = none ∧
      gap 0 20.000000002 = 11400 ∧ ¬Clear 0 20.000000002 := by
  have hgap : gap (-10) 20 = 10400 := by decide +kernel
  have hgap' : gap 0 20.000000002 = 11400 := by decide +kernel
  refine ⟨⟨by decide, hgap, not_clear ?_ ?_⟩, by decide, hgap', not_clear ?_ ?_⟩
  · rw [hgap]
    decide
  · rw [hgap, extra]
    norm_num
  · rw [hgap']
    decide
  · rw [hgap', extra]
    norm_num

end Room

end Crowded

end LayeredDiagram
