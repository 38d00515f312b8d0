import LayeredDiagram.ArchiMate.Model
import LayeredDiagram.Svg.Paint
/-!
Pictures of ArchiMate views. Each layer has a colour of its own.
-/

namespace LayeredDiagram.Svg.ArchiMate

open LayeredDiagram.ArchiMate

-- Relationships may be missing; such an edge looks like an association.
abbrev Scene := Svg.Scene Unit (Option Relationship)

def layerColor : Layer → String
  | .business => "#F0C040"
  | .application => "#4488CC"
  | .technology => "#44AA66"
  | .strategy => "#CCB366"
  | .motivation => "#AA77CC"
  | .physical => "#66BB99"
  | .implementation => "#CC6666"

-- The band of a layer; its colours are mixed from those of the layer and of the picture.
def band (p : Paint) (g : PlacedGroup Quantity) : Except ColorError (List Element) := do
  let color := ((g.kind.bind Layer.ofName?).map layerColor).getD p.colors.line
  let fill ← Color.mix color p.colors.bg (12 : Quantity)
  let stroke ← Color.mix color p.colors.nodeStroke (30 : Quantity)
  return [
    rectangle ⟨g.x, g.y⟩ g.width g.height (some 4) fill (some ⟨stroke, 1.0, none⟩),
    label (p.heading 11 p.colors.textMuted 600) g.labelText ⟨g.x + 8, g.y + 16⟩]

-- A box with its label, and its type in the corner.
def node (p : Paint) (n : PlacedNode Quantity) : List Element :=
  let name := (n.label.filter (· ≠ "")).getD n.id
  let type := (n.kind.filter (· ≠ "")).map fun k =>
    label { p.text 9 p.colors.textFaint with anchor := "end" } (displayName k)
      ⟨n.right - 6, n.y + 12⟩
  [rectangle ⟨n.x, n.y⟩ n.width n.height (some 4) p.colors.nodeFill (some p.outerStroke),
    label (p.text p.fonts.nodeLabelSize p.colors.text p.fonts.nodeLabelWeight) name
      ⟨n.center.x, n.center.y + 2⟩]
  ++ type.toList

-- Dashes and markers of a connector.
structure Look where
  dash : Option String := none
  start : Option Marker := none
  stop : Option Marker := none

def look (type : String) : Look :=
  match type with
  | "composition" => { start := some .filledDiamond }
  | "aggregation" => { start := some .openDiamond }
  | "assignment" => { start := some .circle, stop := some .filledArrow }
  | "realization" => { dash := some "6 4", stop := some .openArrow }
  | "serving" => { stop := some .openArrow }
  | "access" => { dash := some "2 3", stop := some .filledArrow }
  | "influence" => { dash := some "6 4", stop := some .openArrow }
  | "triggering" => { stop := some .filledArrow }
  | "flow" => { dash := some "6 4", stop := some .filledArrow }
  | "specialization" => { stop := some .openTriangle }
  | _ => {}

def edge (p : Paint) (e : PlacedEdge Quantity) (r : Option Relationship) : List Element :=
  if e.points.length < 2 then [] else
  let look := look ((r.map (·.type)).getD "association")
  let text := match e.label.filter (· ≠ "") with
    | some text =>
      let place := Paint.labelPlace e
      [p.pill text place 18, label p.edgeText text place]
    | none => []
  p.route e.points look.dash :: endMarkers p.colors e.points look.start look.stop ++ text

def picture (p : Paint) (title : Option String) (s : Scene) : Except ColorError Document := do
  let bands ← s.groups.mapM (band p)
  let rest := s.body (fun _ => []) (fun n _ => node p n) (edge p)
  return p.document s.width s.height title (bands.flatten ++ rest)

end LayeredDiagram.Svg.ArchiMate
