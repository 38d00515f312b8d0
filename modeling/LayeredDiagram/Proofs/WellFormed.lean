import LayeredDiagram.Layout.Register
import LayeredDiagram.Proofs.Forest
import Mathlib.Data.List.Duplicate
/-!
Which graphs are laid out: those without repeated ids whose edges and groups name nodes only. All other
graphs are refused with a structural error.
-/

namespace LayeredDiagram

variable {α : Type} {nodes : List (SizedNode α)} {edges : List (SizedEdge α)} {entries : List Group.Entry}
variable {ids seen : List String}

-- Ids are unique, and edges and groups name nodes only.
structure WellFormed (nodes : List (SizedNode α)) (edges : List (SizedEdge α))
    (entries : List Group.Entry) : Prop where
  nodes_nodup : (nodes.map (·.id)).Nodup
  ends_mem : ∀ e ∈ edges, e.source ∈ nodes.map (·.id) ∧ e.target ∈ nodes.map (·.id)
  groups_nodup : (entries.map (·.id)).Nodup
  members_mem : ∀ g ∈ entries, ∀ m ∈ g.members, m ∈ nodes.map (·.id)

def SizedEdge.ends (e : SizedEdge α) : String × String :=
  (e.source, e.target)

-- Sizes, labels and kinds do not matter.
theorem WellFormed.congr {nodes' : List (SizedNode α)} {edges' : List (SizedEdge α)}
    (h : WellFormed nodes edges entries) (hn : nodes'.map (·.id) = nodes.map (·.id))
    (he : edges'.map SizedEdge.ends = edges.map SizedEdge.ends) :
    WellFormed nodes' edges' entries where
  nodes_nodup := hn ▸ h.nodes_nodup
  ends_mem e hmem := by
    obtain ⟨f, hf, hfe⟩ := List.mem_map.mp (he ▸ List.mem_map_of_mem (f := SizedEdge.ends) hmem)
    obtain ⟨hs, ht⟩ := Prod.mk.inj hfe
    rw [hn, ← hs, ← ht]
    exact h.ends_mem f hf
  groups_nodup := h.groups_nodup
  members_mem g hg m hm := hn ▸ h.members_mem g hg m hm

namespace Register

theorem firstRepeat?_eq_none_iff :
    firstRepeat? seen ids = none ↔ ids.Nodup ∧ ∀ id ∈ ids, id ∉ seen := by
  induction ids generalizing seen
  case nil => simp [firstRepeat?]
  case cons id ids hi =>
    simp only [firstRepeat?, List.contains_iff_mem]
    split
    case isTrue h => simp [h]
    case isFalse h =>
      rw [hi]
      simp only [List.nodup_cons, List.mem_cons]
      grind

theorem unknownEnd?_eq_none_iff {e : SizedEdge α} :
    unknownEnd? ids e = none ↔ e.source ∈ ids ∧ e.target ∈ ids := by
  simp [unknownEnd?]

theorem edgeError?_eq_none_iff :
    edgeError? ids edges = none ↔ ∀ e ∈ edges, e.source ∈ ids ∧ e.target ∈ ids := by
  simp only [edgeError?, List.findSome?_eq_none_iff, Option.map_eq_none_iff, unknownEnd?_eq_none_iff]
  constructor
  · intro h e he
    have ⟨i, hi⟩ := List.getElem?_of_mem he
    exact h (e, i) (List.mk_mem_zipIdx_iff_getElem?.mpr hi)
  · intro h x hx
    exact h x.1 (List.fst_mem_of_mem_zipIdx hx)

theorem groupError?_eq_none_iff :
    groupError? ids seen entries = none ↔
      (entries.map (·.id)).Nodup ∧ (∀ g ∈ entries, g.id ∉ seen) ∧ ∀ g ∈ entries, ∀ m ∈ g.members, m ∈ ids := by
  induction entries generalizing seen
  case nil => simp [groupError?]
  case cons g gs hi =>
    simp only [groupError?, List.contains_iff_mem]
    split
    case isTrue h => simp [h]
    case isFalse h =>
      split
      case h_1 m hm =>
        have hg : ¬∀ m ∈ g.members, m ∈ ids := by
          intro hc
          have := hc m (List.mem_of_find?_eq_some hm)
          simpa [this] using List.find?_some hm
        simp [hg]
      case h_2 hm =>
        rw [hi]
        simp at hm
        simp only [List.map_cons, List.nodup_cons, List.mem_cons, List.mem_map]
        grind

theorem error?_eq_none_iff : error? nodes edges entries = none ↔ WellFormed nodes edges entries := by
  simp only [error?, Option.or_eq_none_iff, Option.map_eq_none_iff, firstRepeat?_eq_none_iff,
    edgeError?_eq_none_iff, groupError?_eq_none_iff]
  constructor
  · intro ⟨⟨hn, he⟩, hg⟩
    exact ⟨hn.left, he, hg.left, hg.right.right⟩
  · intro ⟨hn, he, hg, hm⟩
    exact ⟨⟨⟨hn, by simp⟩, he⟩, hg, by simp, hm⟩

-- Where only groups share ids, the layout is refused for the first one whose id a group before has.
theorem error?_eq_groupError? (hn : (nodes.map (·.id)).Nodup)
    (he : ∀ e ∈ edges, e.source ∈ nodes.map (·.id) ∧ e.target ∈ nodes.map (·.id)) :
    error? nodes edges entries = groupError? (nodes.map (·.id)) [] entries := by
  have hnodes : firstRepeat? [] (nodes.map (·.id)) = none := firstRepeat?_eq_none_iff.mpr ⟨hn, by simp⟩
  simp [error?, hnodes, edgeError?_eq_none_iff.mpr he]

theorem exists_repeated_of_groupError? {e : LayoutError} (hm : ∀ g ∈ entries, ∀ m ∈ g.members, m ∈ ids)
    (h : groupError? ids seen entries = some e) :
    ∃ id, e = .duplicateGroup id ∧ ((id ∈ seen ∧ id ∈ entries.map (·.id)) ∨ (entries.map (·.id)).Duplicate id) := by
  induction entries generalizing seen
  case nil => simp [groupError?] at h
  case cons g gs hi =>
    have ⟨hg, hm⟩ := List.forall_mem_cons.mp hm
    have hfind : g.members.find? (fun m => !ids.contains m) = none := by simpa using hg
    simp only [groupError?, List.contains_iff_mem, hfind] at h
    split at h
    case isTrue hs => exact ⟨g.id, (Option.some.inj h).symm, .inl ⟨hs, by simp⟩⟩
    case isFalse =>
      obtain ⟨id, he, hid⟩ := hi hm h
      refine ⟨id, he, ?_⟩
      rcases hid with ⟨hseen, hmem⟩ | hdup
      · rcases List.mem_cons.mp hseen with rfl | hseen
        · exact .inr hmem.duplicate_cons_self
        · exact .inl ⟨hseen, List.mem_cons_of_mem _ hmem⟩
      · exact .inr (hdup.duplicate_cons _)

end Register

end LayeredDiagram
