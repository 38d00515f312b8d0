import LayeredDiagram.Proofs.Clustered
import LayeredDiagram.Proofs.Forest
import LayeredDiagram.Proofs.Rectangles
import LayeredDiagram.Routing.GroupBounds
/-!
The rectangles of groups as equations: if ids are unique, then the rectangle that is found for a group is the one
around the nodes it owns, its placeholder and the rectangles that are found for the groups inside it.
-/

namespace LayeredDiagram

variable {α : Type} [Scalar α] {c : Content α} {e : Group.Entry} {above : List String} {gs : List Group}
variable {all : List (String × Bounds α)} {dx dy : Rat}

namespace Content

-- The rectangle that is found for an id.
def found (all : List (String × Bounds α)) (id : String) : Bounds α :=
  (boundsOf? all id).getD ⟨0, 0, 0, 0⟩

-- What a group is put around, given the rectangles that are found for the groups inside it.
def inside (c : Content α) (all : List (String × Bounds α)) (e : Group.Entry) : List (Bounds α) :=
  c.memberBounds e.id e.members ++ e.children.map (found all) ++ ((c.placeholders.lookup e.id).map Bounds.ofBox).toList

omit [Scalar α] in
theorem boundsOf?_of_mem {id : String} {b : Bounds α} (hn : (all.map (·.1)).Nodup) (h : (id, b) ∈ all) :
    boundsOf? all id = some b := by
  have hr : (all.reverse.map (·.1)).Nodup := by
    rw [List.map_reverse]
    exact List.nodup_reverse.mpr hn
  exact lookup_of_mem hr (List.mem_reverse.mpr h)

-- Every group has one rectangle.
mutual

theorem map_fst_measure : (g : Group) → (above : List String) →
    ((measure c g).2.map (·.1)).Perm ((Group.entries above g).map (·.id))
  | ⟨id, _, _, children, _⟩, above => by
    simp only [measure, Group.entries, List.map_append, List.map_cons, List.map_nil]
    exact (List.perm_append_singleton ..).trans ((map_fst_measureAll children _).cons id)

theorem map_fst_measureAll : (gs : List Group) → (above : List String) →
    ((measureAll c gs).all.map (·.1)).Perm ((Group.forest above gs).map (·.id))
  | [], _ => by simp [measureAll, Group.forest]
  | g :: gs, above => by
    simp only [measureAll, Group.forest, List.map_append]
    exact (map_fst_measure g above).append (map_fst_measureAll gs above)

end

theorem mem_measure (g : Group) : (g.id, (measure c g).1) ∈ (measure c g).2 := by
  cases g
  simp [measure]

-- By induction on the groups side by side.
theorem own_measureAll (hn : (all.map (·.1)).Nodup) (hs : (measureAll c gs).all ⊆ all) :
    (measureAll c gs).own = (gs.map Group.id).map (found all) := by
  induction gs
  case nil => simp [measureAll]
  case cons g gs hi =>
    simp only [measureAll, List.append_subset] at hs
    simp only [measureAll, List.map_cons, hi hs.right]
    rw [found, boundsOf?_of_mem hn (hs.left (mem_measure g)), Option.getD_some]

mutual

theorem found_of_mem_entries (hn : (all.map (·.1)).Nodup) : (g : Group) → (above : List String) →
    (measure c g).2 ⊆ all → e ∈ Group.entries above g → found all e.id = c.around (c.inside all e)
  | ⟨id, label, members, children, kind⟩, above, hs, he => by
    simp only [measure, List.append_subset] at hs
    simp only [Group.entries, List.mem_cons] at he
    cases he
    case inl he =>
      subst he
      rw [found, boundsOf?_of_mem hn (hs.right (List.mem_singleton_self _)), Option.getD_some,
        own_measureAll hn hs.left, inside]
    case inr he => exact found_of_mem_forest hn children _ hs.left he

theorem found_of_mem_forest (hn : (all.map (·.1)).Nodup) : (gs : List Group) → (above : List String) →
    (measureAll c gs).all ⊆ all → e ∈ Group.forest above gs → found all e.id = c.around (c.inside all e)
  | [], _, _, he => by simp [Group.forest] at he
  | g :: gs, above, hs, he => by
    simp only [measureAll, List.append_subset] at hs
    simp only [Group.forest, List.mem_append] at he
    cases he
    case inl he => exact found_of_mem_entries hn g above hs.left he
    case inr he => exact found_of_mem_forest hn gs above hs.right he

end

theorem found_measureAll (h : ((Group.forest above gs).map (·.id)).Nodup) (he : e ∈ Group.forest above gs) :
    found (measureAll c gs).all e.id = c.around (c.inside (measureAll c gs).all e) :=
  found_of_mem_forest ((map_fst_measureAll gs above).nodup_iff.mpr h) gs above (List.Subset.refl _) he

section Frame

variable {c : Content Rat} {bs : List (Bounds Rat)} {b r : Bounds Rat}

theorem frames_frame (h : b.Within r) : Bounds.Frames c.spacing.groupPadding c.spacing.groupHeader (c.frame r) b := by
  obtain ⟨hl, ht, hr, hb⟩ := h
  constructor <;> simp only [frame] <;> linarith

theorem frames_around (hb : b ∈ bs) :
    Bounds.Frames c.spacing.groupPadding c.spacing.groupHeader (c.around bs) b := by
  obtain ⟨inner, hi⟩ := Bounds.exists_hull? (List.ne_nil_of_mem hb)
  simp only [around, hi]
  exact frames_frame ((Bounds.within_iff_of_hull? hi).mp (.refl inner) b hb)

-- A group reaches no further than padding and header beyond what it is put around.
theorem around_between {top bottom : Rat} (hn : bs ≠ [])
    (h : ∀ b ∈ bs, top + (c.spacing.groupPadding + c.spacing.groupHeader) ≤ b.top ∧
      b.bottom ≤ bottom - c.spacing.groupPadding) :
    top ≤ (c.around bs).top ∧ (c.around bs).bottom ≤ bottom := by
  obtain ⟨inner, hi⟩ := Bounds.exists_hull? hn
  have hw := (Bounds.within_iff_of_hull? hi).mp (.refl inner)
  have hr := (Bounds.within_iff_of_hull? (r := ⟨inner.left, top + (c.spacing.groupPadding + c.spacing.groupHeader),
    inner.right, bottom - c.spacing.groupPadding⟩) hi).mpr fun b hb =>
      ⟨(hw b hb).left, (h b hb).left, (hw b hb).right, (h b hb).right⟩
  have htop := hr.top
  have hbottom := hr.bottom
  simp only [around, hi, frame] at htop hbottom ⊢
  constructor <;> linarith

theorem around_beside {left right : Rat} (hn : bs ≠ [])
    (h : ∀ b ∈ bs, left + c.spacing.groupPadding ≤ b.left ∧ b.right ≤ right - c.spacing.groupPadding) :
    left ≤ (c.around bs).left ∧ (c.around bs).right ≤ right := by
  obtain ⟨inner, hi⟩ := Bounds.exists_hull? hn
  have hw := (Bounds.within_iff_of_hull? hi).mp (.refl inner)
  have hr := (Bounds.within_iff_of_hull? (r := ⟨left + c.spacing.groupPadding, inner.top,
    right - c.spacing.groupPadding, inner.bottom⟩) hi).mpr fun b hb =>
      ⟨(h b hb).left, (hw b hb).top, (h b hb).right, (hw b hb).bottom⟩
  have hleft := hr.left
  have hright := hr.right
  simp only [around, hi, frame] at hleft hright ⊢
  constructor <;> linarith

end Frame

end Content

namespace PlacedGroup

-- Groups are drawn with the rectangles that are found for them, each group before those inside it.
mutual

theorem map_walk_ofGroup (all : List (String × Bounds Rat)) : (g : Group) → (above : List String) →
    (walk (ofGroup all g)).map (fun d => (d.id, d.bounds)) =
      (Group.entries above g).map fun e => (e.id, Content.found all e.id)
  | ⟨id, _, _, children, _⟩, above => by
    simp only [ofGroup, walk, Group.entries, List.map_cons, map_walkAll_ofGroups all children (above ++ [id])]
    simp only [bounds, right, bottom, Bounds.width, Bounds.height, Content.found, add_sub_cancel]

theorem map_walkAll_ofGroups (all : List (String × Bounds Rat)) : (gs : List Group) → (above : List String) →
    (walkAll (ofGroups all gs)).map (fun d => (d.id, d.bounds)) =
      (Group.forest above gs).map fun e => (e.id, Content.found all e.id)
  | [], _ => by simp [ofGroups, walkAll, Group.forest]
  | g :: gs, above => by
    simp only [ofGroups, walkAll, Group.forest, List.map_append]
    rw [map_walk_ofGroup all g above, map_walkAll_ofGroups all gs above]

end

mutual

theorem walk_shift : (d : PlacedGroup Rat) → walk (shift dx dy d) = (walk d).map (shift dx dy)
  | ⟨_, _, _, _, _, _, children, _⟩ => by
    simp only [shift, walk, List.map_cons, walkAll_shiftAll children]

theorem walkAll_shiftAll : (ds : List (PlacedGroup Rat)) →
    walkAll (shiftAll dx dy ds) = (walkAll ds).map (shift dx dy)
  | [] => by simp [shiftAll, walkAll]
  | d :: ds => by
    simp only [shiftAll, walkAll, List.map_append, walk_shift d, walkAll_shiftAll ds]

end

theorem id_shift (d : PlacedGroup Rat) : (d.shift dx dy).id = d.id := by
  cases d
  simp [shift]

theorem bounds_shift (d : PlacedGroup Rat) : (d.shift dx dy).bounds = d.bounds.shift dx dy := by
  cases d
  ext <;> simp only [bounds, right, bottom, shift, Bounds.shift] <;> ring

end PlacedGroup

end LayeredDiagram
