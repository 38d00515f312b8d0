import LayeredDiagram.ArchiMate.Reading
import LayeredDiagram.Proofs.Layers
/-!
The bands of a drawn layered view. They come in the order of the layers, and a band is above another one if neither
they nor the layers between them have lost all their elements to other layers. Ordering edges pass from one layer to
the next, so that a layer without elements has nothing that keeps the layers above it and those below it apart.
-/

namespace LayeredDiagram.ArchiMate

open LayeredDiagram.Group

variable {d : Diagram} {id : String} {l u : Layer}

namespace Diagram

-- The entry of the group of a layer.
def layerEntry (d : Diagram) (l : Layer) : Entry :=
  ⟨l.groupId, l.label, d.layerIds l, [], [l.groupId]⟩

theorem forest_layerGroups_eq (d : Diagram) : forest [] d.layerGroups = d.presentLayers.map d.layerEntry := by
  rw [forest_layerGroups, layerGroups, List.map_map]
  rfl

theorem layerEntry_mem (h : l ∈ d.presentLayers) : d.layerEntry l ∈ forest [] d.layerGroups := by
  rw [forest_layerGroups_eq]
  exact List.mem_map_of_mem h

theorem mem_presentLayers_of_mem_layerIds (h : id ∈ d.layerIds l) : l ∈ d.presentLayers := by
  obtain ⟨x, hx, rfl⟩ := mem_layerIds_iff.mp h
  exact mem_presentLayers_of_declaration? hx

theorem owner?_eq (h : id ∈ d.layerIds l) : owner? (forest [] d.layerGroups) id = some (d.layerEntry l) := by
  rw [owner?, forest_layerGroups_eq]
  cases hf : (d.presentLayers.map d.layerEntry).find? (·.members.contains id)
  case none =>
    have hm := List.mem_map_of_mem (f := d.layerEntry) (mem_presentLayers_of_mem_layerIds h)
    exact absurd (by simpa [layerEntry] using h) (List.find?_eq_none.mp hf _ hm)
  case some e =>
    obtain ⟨u, _, rfl⟩ := List.mem_map.mp (List.mem_of_find?_eq_some hf)
    have hu : id ∈ d.layerIds u := by simpa [layerEntry] using List.find?_some hf
    rw [layer_eq h hu]

-- A group is around the elements of its layer and no others.
theorem mem_layerIds_of_mem_ownerPath (h : l.groupId ∈ ownerPath (forest [] d.layerGroups) id) :
    id ∈ d.layerIds l := by
  unfold ownerPath at h
  cases hf : owner? (forest [] d.layerGroups) id
  case none => simp [hf] at h
  case some e =>
    have he : e ∈ forest [] d.layerGroups := List.mem_of_find?_eq_some hf
    rw [forest_layerGroups_eq] at he
    obtain ⟨u, _, rfl⟩ := List.mem_map.mp he
    rw [hf] at h
    rw [Layer.groupId_inj (List.mem_singleton.mp h)]
    simpa [layerEntry] using List.find?_some hf

section Ranks

variable {α : Type} [Scalar α] {c : Config α} {n m : String}

theorem rank_lt_of_consecutive (h : (u, l) ∈ d.presentLayers.zip d.presentLayers.tail) (hn : n ∈ d.layerIds u)
    (hm : m ∈ d.layerIds l) :
    (ranksOf (d.toGraph c).nodes (d.toGraph c).edges).rank n <
      (ranksOf (d.toGraph c).nodes (d.toGraph c).edges).rank m := by
  have he : SizedEdge.ordering n m c.layerEdgeWeight ∈ (d.toGraph c).edges :=
    List.mem_append_left _ (mem_orderingEdges_iff.mpr ⟨u, l, h, n, hn, m, hm, rfl⟩)
  have hlt := depth_lt_of_ordering he rfl
  have hne : n ≠ m := fun hnm => by simp [SizedEdge.ordering, SizedEdge.plain, hnm] at hlt
  obtain ⟨o, ho, rfl, rfl⟩ := OrientedEdge.exists_forwards_of_ordering d.depth ((d.toGraph c).nodes.map (·.id))
    (fun e he hk _ => depth_lt_of_ordering he hk) he rfl hne
  exact (d.wellFormed c).rank_lt ho

-- By induction on the layers from one to the other, each of which has an element.
theorem rank_lt_of_above {above rest : List Layer} (h : d.presentLayers = above ++ u :: rest) (hl : l ∈ rest)
    (hb : ∀ x ∈ rest, x.index < l.index → d.layerIds x ≠ []) (hn : n ∈ d.layerIds u) (hm : m ∈ d.layerIds l) :
    (ranksOf (d.toGraph c).nodes (d.toGraph c).edges).rank n <
      (ranksOf (d.toGraph c).nodes (d.toGraph c).edges).rank m := by
  induction rest generalizing above u n
  case nil => cases hl
  case cons v rest hi =>
    have huv : (u, v) ∈ d.presentLayers.zip d.presentLayers.tail := mem_zip_tail_iff.mpr ⟨above, rest, h⟩
    cases List.mem_cons.mp hl
    case inl hv => exact rank_lt_of_consecutive huv hn (hv ▸ hm)
    case inr hl =>
      have hsorted := d.pairwise_presentLayers
      rw [h] at hsorted
      have htail := (List.pairwise_cons.mp (List.pairwise_append.mp hsorted).right.left).right
      have hvl : v.index < l.index := (List.pairwise_cons.mp htail).left l hl
      obtain ⟨w, hw⟩ := List.exists_mem_of_ne_nil _ (hb v List.mem_cons_self hvl)
      have hrec : d.presentLayers = (above ++ [u]) ++ v :: rest := by rw [h, List.append_assoc]; rfl
      exact (rank_lt_of_consecutive huv hn hw).trans
        (hi hrec hl (fun x hx => hb x (List.mem_cons_of_mem _ hx)) hw)

-- Elements are on ranks in the order of their layers.
theorem rank_lt_of_index_lt (hul : u.index < l.index)
    (hb : ∀ x ∈ d.presentLayers, u.index < x.index → x.index < l.index → d.layerIds x ≠ [])
    (hn : n ∈ d.layerIds u) (hm : m ∈ d.layerIds l) :
    (ranksOf (d.toGraph c).nodes (d.toGraph c).edges).rank n <
      (ranksOf (d.toGraph c).nodes (d.toGraph c).edges).rank m := by
  obtain ⟨above, rest, h⟩ := List.append_of_mem (mem_presentLayers_of_mem_layerIds hn)
  have hsorted := d.pairwise_presentLayers
  rw [h] at hsorted
  obtain ⟨_, hrest, habove⟩ := List.pairwise_append.mp hsorted
  have hlm := mem_presentLayers_of_mem_layerIds hm
  rw [h] at hlm
  have hl : l ∈ rest := by
    rcases List.mem_append.mp hlm with hl | hl
    · exact absurd (habove l hl u List.mem_cons_self) hul.not_gt
    · cases List.mem_cons.mp hl
      case inl hlu => exact absurd (hlu ▸ hul) (lt_irrefl _)
      case inr hl => exact hl
  refine rank_lt_of_above h hl (fun x hx hxl => ?_) hn hm
  exact hb x (h ▸ by simp [hx]) ((List.pairwise_cons.mp hrest).left x hx) hxl

end Ranks

variable {c : Config Rat} {place : String → Nat} {s : Solution Rat} {p : PlacedGraph Rat}

-- The group of a layer ends above that of a layer below it.
theorem groupBounds_above (hs : Stacked (d.toGraph c) place s) (hu : u ∈ d.presentLayers)
    (hl : l ∈ d.presentLayers) (hul : u.index < l.index)
    (hb : ∀ x ∈ d.presentLayers, u.index ≤ x.index → x.index ≤ l.index → d.layerIds x ≠ []) :
    ((d.toGraph c).groupBounds s (d.layerEntry u)).bottom ≤ ((d.toGraph c).groupBounds s (d.layerEntry l)).top := by
  have nonempty {x : Layer} (hx : d.layerIds x ≠ []) :
      ∃ n ∈ (d.toGraph c).nodes, x.groupId ∈ ownerPath (forest [] d.layerGroups) n.id := by
    obtain ⟨id, hid⟩ := List.exists_mem_of_ne_nil _ hx
    have hmem : id ∈ (d.toGraph c).nodes.map (·.id) := d.map_id_nodes c ▸ mem_ids_of_mem_layerIds hid
    obtain ⟨n, hn, rfl⟩ := List.mem_map.mp hmem
    refine ⟨n, hn, ?_⟩
    rw [ownerPath, owner?_eq hid]
    exact List.mem_singleton_self _
  have hflat : ∀ e ∈ forest [] d.layerGroups, e.path = [e.id] := by
    rw [forest_layerGroups_eq]
    intro e he
    obtain ⟨_, _, rfl⟩ := List.mem_map.mp he
    rfl
  apply hs.groupBounds_above_of_nodes hflat (layerEntry_mem hu) (layerEntry_mem hl)
  case hne => exact nonempty (hb u hu le_rfl hul.le)
  case hnf => exact nonempty (hb l hl hul.le le_rfl)
  case hr =>
    intro n _ m _ hn hm
    exact rank_lt_of_index_lt hul (fun x hx hux hxl => hb x hx hux.le hxl.le)
      (mem_layerIds_of_mem_ownerPath hn) (mem_layerIds_of_mem_ownerPath hm)

-- A layer without elements has a placeholder. It is not above a layer with an element on the rank of the placeholder.
theorem groupBounds_overlap {i : Item Rat} (hs : Stacked (d.toGraph c) place s) (hu : u ∈ d.presentLayers)
    (hx : id ∈ d.layerIds l) (hi : i ∈ s.stock.items) (hslot : i.slot = .placeholder u.groupId)
    (hr : i.rank = (ranksOf (d.toGraph c).nodes (d.toGraph c).edges).rank id)
    (hc : 0 < c.layerPadding + c.layerLabelHeight) :
    ((d.toGraph c).groupBounds s (d.layerEntry l)).top < ((d.toGraph c).groupBounds s (d.layerEntry u)).bottom := by
  have hmem : id ∈ (d.toGraph c).nodes.map (·.id) := d.map_id_nodes c ▸ mem_ids_of_mem_layerIds hx
  obtain ⟨n, hn, rfl⟩ := List.mem_map.mp hmem
  have hl := layerEntry_mem (mem_presentLayers_of_mem_layerIds hx)
  have hgap := hs.top_add_le_bottom (layerEntry_mem hu) hl hi (hs.itemOf_mem hn)
    (hs.placeholder_mem_inside hi hslot) (hs.nodeBounds_mem_inside hn (owner?_eq hx)) hr
  have hpos : 0 ≤ (d.toGraph c).spacing.groupPadding := hs.spacing_nonneg _ (by simp [Spacing.lengths])
  have hpad : 0 < (d.toGraph c).spacing.groupPadding + (d.toGraph c).spacing.groupHeader := hc
  linarith

theorem exists_layer_of_mem {dx dy : Rat} {b : PlacedGroup Rat} (hd : Drawn (d.toGraph c) s dx dy p)
    (hb : b ∈ p.groups) : ∃ l ∈ d.presentLayers, b.kind = some l.name ∧
      b.y = ((d.toGraph c).groupBounds s (d.layerEntry l)).top + dy ∧
      b.bottom = ((d.toGraph c).groupBounds s (d.layerEntry l)).bottom + dy := by
  have hm := List.mem_map_of_mem (f := PlacedGroup.upright) hb
  rw [hd.map_upright] at hm
  obtain ⟨g, hg, he⟩ := List.mem_map.mp hm
  obtain ⟨l, hl, rfl⟩ := List.mem_map.mp hg
  simp only [PlacedGroup.upright, Prod.mk.injEq] at he
  exact ⟨l, hl, he.right.left.symm, he.right.right.left.symm, he.right.right.right.symm⟩

theorem exists_band {dx dy : Rat} (hd : Drawn (d.toGraph c) s dx dy p) (hl : l ∈ d.presentLayers) :
    ∃ b ∈ p.groups, b.kind = some l.name ∧
      b.y = ((d.toGraph c).groupBounds s (d.layerEntry l)).top + dy ∧
      b.bottom = ((d.toGraph c).groupBounds s (d.layerEntry l)).bottom + dy := by
  have hm := List.mem_map_of_mem (f := fun l => Group.mk l.groupId l.label (d.layerIds l) [] (some l.name)) hl
  have hm' := List.mem_map_of_mem (f := fun gr : Group => (gr.id, gr.kind,
    (Content.found ((d.toGraph c).groupTable s) gr.id).top + dy,
    (Content.found ((d.toGraph c).groupTable s) gr.id).bottom + dy)) hm
  obtain ⟨b, hb, he⟩ := List.mem_map.mp (hd.map_upright ▸ hm' : _ ∈ p.groups.map PlacedGroup.upright)
  simp only [PlacedGroup.upright, Prod.mk.injEq] at he
  exact ⟨b, hb, he.right.left, he.right.right.left, he.right.right.right⟩

-- Every diagram is drawn with a band for each layer with element lines, from top to bottom. A band ends above one of
-- a lower layer if all bands from the one to the other have elements.
theorem layout_bands (d : Diagram) (sweeps : Nat) (hs : ∀ q ∈ c.spacing.lengths, 0 ≤ q) (hh : 0 ≤ c.elementHeight) :
    ∃ p, (d.toGraph c).layout sweeps = .ok p ∧ d.presentLayers.Sublist Layer.all ∧
      p.groups.map (·.kind) = d.presentLayers.map (fun l => some l.name) ∧
      ∀ b ∈ p.groups, ∀ b' ∈ p.groups, ∀ u l : Layer, b.kind = some u.name → b'.kind = some l.name →
        u.index < l.index →
        (∀ x ∈ d.presentLayers, u.index ≤ x.index → x.index ≤ l.index → d.layerIds x ≠ []) → b.bottom ≤ b'.y := by
  have hw := d.wellFormed c
  by_cases hn : (d.toGraph c).nodes = []
  case pos =>
    have hids : d.ids = [] := by rw [← d.map_id_nodes c, hn, List.map_nil]
    have hdecl : d.declarations = [] := by
      refine List.eq_nil_iff_forall_not_mem.mpr fun x hx => ?_
      have : x.element.id ∈ d.ids := List.mem_eraseDups.mpr (List.mem_map_of_mem hx)
      rw [hids] at this
      cases this
    have hd : (d.toGraph c).direction = "TB" := rfl
    have hlayout : (d.toGraph c).layout sweeps = .ok { width := 0, height := 0 } := by
      simp [SizedGraph.layout, hd, hn]
    have hp : d.presentLayers = [] := by simp [presentLayers, hdecl]
    exact ⟨_, hlayout, List.filter_sublist, by simp [hp], by simp⟩
  case neg =>
    obtain ⟨p, hp⟩ := SizedGraph.exists_layout rfl hn hw sweeps
    obtain ⟨_, _, rfl⟩ := SizedGraph.layout_eq hp hn
    have hheight : ∀ n ∈ (d.toGraph c).nodes, 0 ≤ n.height := by
      intro n hn
      obtain ⟨x, _, rfl⟩ := List.mem_map.mp hn
      exact hh
    obtain ⟨place, hst⟩ := SizedGraph.exists_stacked hw hs hheight sweeps
    obtain ⟨dx, dy, hd⟩ := SizedGraph.exists_drawn hst
    refine ⟨_, hp, List.filter_sublist, ?_, ?_⟩
    · have hkinds := congrArg (List.map fun u => u.2.1) hd.map_upright
      simp only [List.map_map] at hkinds
      refine hkinds.trans ?_
      simp only [toGraph, layerGroups, List.map_map]
      rfl
    · intro b hb b' hb' u l hu hl hul hall
      obtain ⟨v, hv, hbv, _, hbottom⟩ := exists_layer_of_mem hd hb
      obtain ⟨v', hv', hbv', htop, _⟩ := exists_layer_of_mem hd hb'
      obtain rfl := Layer.name_inj (Option.some.inj (hbv.symm.trans hu))
      obtain rfl := Layer.name_inj (Option.some.inj (hbv'.symm.trans hl))
      have := groupBounds_above hst hv hv' hul hall
      rw [hbottom, htop]
      linarith

theorem layout_bands_twoLayers : ∃ p, ((ofText "archimate-layered
  application:
    component App
  business:
    actor Customer
  App --> Customer").toGraph (Config.standard : Config Rat)).layout 4 = .ok p ∧
    p.groups.map (·.kind) = [some "business", some "application"] ∧
    ∀ b ∈ p.groups, ∀ b' ∈ p.groups, b.kind = some "business" → b'.kind = some "application" → b.bottom ≤ b'.y := by
  generalize ht : ofText _ = d
  have hd : d = ⟨[.application, .business], [⟨.application, ⟨"App", "App", "component"⟩⟩,
    ⟨.business, ⟨"Customer", "Customer", "actor"⟩⟩], [⟨"App", "Customer", "association", none⟩]⟩ := ht.symm.trans rfl
  clear ht
  have hp : d.presentLayers = [.business, .application] := by subst hd; decide +kernel
  have hb : ∀ l ∈ [Layer.business, .application], d.layerIds l ≠ [] := by subst hd; decide +kernel
  have hs : ∀ q ∈ (Config.standard : Config Rat).spacing.lengths, 0 ≤ q := by
    simp only [Config.spacing, Config.standard, Spacing.standard, Spacing.lengths]
    norm_num
  obtain ⟨p, hlayout, _, hkinds, hbands⟩ := layout_bands (c := Config.standard) d 4 hs (by norm_num [Config.standard])
  refine ⟨p, hlayout, by rw [hkinds, hp]; rfl, fun b hbm b' hbm' hu hl => ?_⟩
  exact hbands b hbm b' hbm' .business .application hu hl (by decide) (fun x hx _ _ => hb x (hp ▸ hx))

-- The only element of the upper layer is taken over by the lower one. Both bands are put on the first rank then.
theorem layout_bands_overlap : ∃ p, ((ofText "archimate-layered
  business:
    actor X
  application:
    component X").toGraph (Config.standard : Config Rat)).layout 4 = .ok p ∧
    ∃ b ∈ p.groups, ∃ b' ∈ p.groups, b.kind = some "business" ∧ b'.kind = some "application" ∧
      Layer.business.index < Layer.application.index ∧ ¬b.bottom ≤ b'.y := by
  generalize ht : ofText _ = d
  have hd : d = ⟨[.business, .application], [⟨.business, ⟨"X", "X", "actor"⟩⟩,
    ⟨.application, ⟨"X", "X", "component"⟩⟩], []⟩ := ht.symm.trans rfl
  clear ht
  generalize hc : (Config.standard : Config Rat) = c
  have hp : d.presentLayers = [.business, .application] := by subst hd; decide +kernel
  have hu : Layer.business ∈ d.presentLayers := by rw [hp]; decide
  have hx : "X" ∈ d.layerIds .application := by subst hd; decide +kernel
  have hs : ∀ q ∈ c.spacing.lengths, 0 ≤ q := by
    simp only [← hc, Config.spacing, Config.standard, Spacing.standard, Spacing.lengths]
    norm_num
  have hh : ∀ n ∈ (d.toGraph c).nodes, 0 ≤ n.height := by subst hd hc; decide +kernel
  have hn : (d.toGraph c).nodes ≠ [] := by subst hd hc; decide +kernel
  obtain ⟨p, hlayout⟩ := SizedGraph.exists_layout rfl hn (d.wellFormed c) 4
  obtain ⟨_, _, rfl⟩ := SizedGraph.layout_eq hlayout hn
  obtain ⟨place, hst⟩ := SizedGraph.exists_stacked (d.wellFormed c) hs hh 4
  obtain ⟨dx, dy, hdr⟩ := SizedGraph.exists_drawn hst
  obtain ⟨b, hb, hkind, _, hbottom⟩ := exists_band hdr hu
  obtain ⟨b', hb', hkind', htop, _⟩ := exists_band hdr (mem_presentLayers_of_mem_layerIds hx)
  refine ⟨_, hlayout, b, hb, b', hb', hkind, hkind', by decide, ?_⟩
  let stock := Stock.ofNodes (d.toGraph c).nodes (d.toGraph c).edges (d.toGraph c).spacing
    (forest [] (d.toGraph c).groups)
  obtain ⟨i, hi, hslot, _⟩ : ∃ i ∈ stock.items, i.slot = .placeholder Layer.business.groupId ∧ _ :=
    Stock.exists_placeholder (layerEntry_mem hu) rfl (by subst hd hc; decide +kernel)
  have hr : ∀ i ∈ stock.items, i.rank = (ranksOf (d.toGraph c).nodes (d.toGraph c).edges).rank "X" := by
    subst hd hc
    decide +kernel
  have hover := groupBounds_overlap hst hu hx (hst.stock_eq ▸ hi) hslot (hr i hi)
    (by subst hc; norm_num [Config.standard])
  rw [hbottom, htop]
  linarith

end Diagram

end LayeredDiagram.ArchiMate
