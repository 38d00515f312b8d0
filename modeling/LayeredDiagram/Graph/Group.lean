/-!
Groups: named containers of nodes and of further groups. The entries of a forest list every group
before the groups inside it, together with the ids on the way down to it.
-/

namespace LayeredDiagram

structure Group where
  id : String
  label : Option String := some ""
  -- Ids of the nodes directly inside.
  members : List String := []
  children : List Group := []
  kind : Option String := none
  deriving Inhabited

namespace Group

-- One group of a forest.
structure Entry where
  id : String
  label : Option String
  members : List String
  -- Ids of the groups directly inside.
  children : List String
  -- Ids from the outermost group around it down to the group itself.
  path : List String

mutual

-- The group and all groups inside it, parents before children.
def entries (above : List String) : Group → List Entry
  | ⟨id, label, members, children, _⟩ =>
    ⟨id, label, members, children.map Group.id, above ++ [id]⟩ :: forest (above ++ [id]) children

-- The entries of all groups of a list, in order.
def forest (above : List String) : List Group → List Entry
  | [] => []
  | g :: gs => entries above g ++ forest above gs

end

theorem forest_nil (above : List String) : forest above [] = [] := by
  simp [forest]

theorem forest_cons (above : List String) (g : Group) (gs : List Group) :
    forest above (g :: gs) = entries above g ++ forest above gs := by
  simp [forest]

-- The id of the group around an entry.
def Entry.parent? (e : Entry) : Option String :=
  e.path.dropLast.getLast?

-- The entry of the group that a node belongs to: the first one that lists it.
def owner? (entries : List Entry) (node : String) : Option Entry :=
  entries.find? fun e => e.members.contains node

-- The ids of the groups around a node, outermost first.
def ownerPath (entries : List Entry) (node : String) : List String :=
  match owner? entries node with
  | some e => e.path
  | none => []

end Group

end LayeredDiagram
