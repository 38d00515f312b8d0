import LayeredDiagram.Graph.Sized
import LayeredDiagram.Layout.Error
/-!
Whether nodes, edges and groups fit together: ids are unique, and edges and groups name nodes only.
Nodes are checked before edges, edges before groups, and groups in the order of their entries.
-/

namespace LayeredDiagram.Register

variable {α : Type}

-- The first id that occurs a second time.
def firstRepeat? (seen : List String) : List String → Option String
  | [] => none
  | id :: ids => if seen.contains id then some id else firstRepeat? (id :: seen) ids

-- The first end of an edge that is no node, the source before the target.
def unknownEnd? (ids : List String) (e : SizedEdge α) : Option String :=
  [e.source, e.target].find? fun id => !ids.contains id

-- What is wrong with the first faulty edge.
def edgeError? (ids : List String) (edges : List (SizedEdge α)) : Option LayoutError :=
  edges.zipIdx.findSome? fun (e, index) =>
    (unknownEnd? ids e).map (LayoutError.unknownEndpoint index e.source e.target)

-- What is wrong with the first faulty group, given the ids of the groups before.
def groupError? (ids seen : List String) : List Group.Entry → Option LayoutError
  | [] => none
  | g :: gs =>
    if seen.contains g.id then some (.duplicateGroup g.id)
    else
      match g.members.find? fun m => !ids.contains m with
      | some m => some (.unknownMember g.id m)
      | none => groupError? ids (g.id :: seen) gs

-- What keeps a graph from being laid out.
def error? (nodes : List (SizedNode α)) (edges : List (SizedEdge α)) (entries : List Group.Entry) :
    Option LayoutError :=
  let ids := nodes.map (·.id)
  ((firstRepeat? [] ids).map .duplicateNode)
    |>.or (edgeError? ids edges)
    |>.or (groupError? ids [] entries)

end LayeredDiagram.Register
