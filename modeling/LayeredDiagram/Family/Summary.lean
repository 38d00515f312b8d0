import LayeredDiagram.Data.Value
import LayeredDiagram.Family.Diagram
/-!
Counts that sum up a diagram.
-/

namespace LayeredDiagram.Diagram

-- The fields that sum up a diagram. Of nested boundaries only the outermost ones count.
def summary : Diagram → List (String × Value)
  | .c4 d => [
      ("type", .text d.kind), ("title", .ofOption d.title), ("elements", .nat d.elements.length),
      ("relationships", .nat d.relationships.length), ("boundaries", .nat d.boundaries.length)]
  | .archimate d => [
      ("layers", .list (d.presentLayers.map fun l => .text l.name)),
      ("elements", .nat d.elements.length), ("relationships", .nat d.relationships.length)]
  | .classDiagram d => [
      ("classes", .nat d.classes.length), ("relationships", .nat d.relationships.length),
      ("namespaces", .nat d.namespaces.length)]

end LayeredDiagram.Diagram
