import LayeredDiagram.ClassDiagram.Model
import LayeredDiagram.Svg.Paint
/-!
Pictures of class diagrams. A class box has a header, a compartment for attributes and one for methods.
-/

namespace LayeredDiagram.Svg.ClassDiagram

open LayeredDiagram.ClassDiagram

-- What is known about the box of a class.
structure Content where
  class? : Option LayeredDiagram.ClassDiagram.Class := none
  headerHeight : Option Quantity := none
  attributesHeight : Option Quantity := none

abbrev Scene := Svg.Scene Content (Option Relationship)

def namespaceFrame (p : Paint) (g : PlacedGroup Quantity) : List Element :=
  [rectangle ⟨g.x, g.y⟩ g.width g.height (some 2) "none" (some (p.outerStroke (some "8 4"))),
    label (p.heading p.fonts.groupHeaderSize p.colors.textSec p.fonts.groupHeaderWeight) g.labelText
      ⟨g.x + 10, g.y + 14⟩]

def memberRow : Int := 20

-- A member; abstract ones are slanted and static ones underlined.
def member (p : Paint) (m : Member) (place : Point Quantity) : Element :=
  let slanted := if m.isAbstract then [Paint.italic] else []
  let underlined := if m.isStatic then [("text-decoration", "underline")] else []
  let style := { p.heading 11 p.colors.textSec 400 with
    family := monospaceFamily, extra := slanted ++ underlined }
  label style m.displayText place

def members (p : Paint) (x top : Quantity) (ms : List Member) : List Element :=
  ms.zipIdx.map fun (m, index) =>
    member p m ⟨x, top + 4 + .whole ((index : Int) * memberRow) + 10⟩

-- The name in the header, under the stereotype if there is one.
def header (p : Paint) (n : PlacedNode Quantity) (stereotype : Option String) (height : Quantity) :
    List Element :=
  let name := (n.label.filter (· ≠ "")).getD n.id
  let style := p.text 13 p.colors.text 700
  let middle := n.y + height / 2
  match stereotype with
  | some t =>
    [label { p.text 10 p.colors.textMuted 500 with extra := [Paint.italic] } ("<<" ++ t ++ ">>")
        ⟨n.center.x, n.y + 12⟩,
      label style name ⟨n.center.x, middle + 6⟩]
  | none => [label style name ⟨n.center.x, middle⟩]

def node (p : Paint) (n : PlacedNode Quantity) (content : Content) : List Element :=
  let headerHeight := content.headerHeight.getD n.height
  let divider := n.y + headerHeight + content.attributesHeight.getD 0
  let corner : Point Quantity := ⟨n.x, n.y⟩
  let stereotype := content.class?.bind fun c => c.stereotype.filter (· ≠ "")
  let rows := match content.class? with
    | some c =>
      members p (n.x + 8) (n.y + headerHeight) c.attributes ++ members p (n.x + 8) divider c.methods
    | none => []
  [rectangle corner n.width n.height none p.colors.nodeFill (some p.outerStroke),
    rectangle corner n.width headerHeight none p.colors.groupHeader (some p.outerStroke)]
  ++ header p n stereotype headerHeight
  ++ [lines [⟨n.x, divider⟩, ⟨n.right, divider⟩] false
      (Stroke.attributes ⟨p.colors.nodeStroke, 0.75, none⟩)]
  ++ rows

def marker? (type : String) : Option Marker :=
  match type with
  | "inheritance" | "realization" => some .openTriangle
  | "composition" => some .filledDiamond
  | "aggregation" => some .openDiamond
  | "association" | "dependency" => some .openArrow
  | _ => none

def isDashed (type : String) : Bool :=
  type == "dependency" || type == "realization"

-- A text beside the end of a route: beside a vertical line, above a horizontal one.
def cardinality (p : Paint) (text : Option String) : List (Point Quantity) → List Element
  | stop :: toward :: _ =>
    let dx := toward.x - stop.x
    let dy := toward.y - stop.y
    let offset : Int × Int :=
      if Scalar.magnitude dy < Scalar.magnitude dx then (if 0 < dx then 14 else -14, -10)
      else (-14, if 0 < dy then 14 else -14)
    let place : Point Quantity := ⟨stop.x + .whole offset.1, stop.y + .whole offset.2⟩
    ((text.filter (· ≠ "")).map fun t =>
      label (p.text p.fonts.edgeLabelSize p.colors.textMuted) t place).toList
  | _ => []

-- The label above its anchor, or above the middle bend.
def edgeLabel (p : Paint) (e : PlacedEdge Quantity) : List Element :=
  match e.label.filter (· ≠ ""), e.labelAnchor.or e.points[e.points.length / 2]? with
  | some text, some place =>
    [label (p.text p.fonts.edgeLabelSize p.colors.textMuted) text ⟨place.x, place.y - 8⟩]
  | _, _ => []

def edge (p : Paint) (e : PlacedEdge Quantity) (r : Option Relationship) : List Element :=
  if e.points.length < 2 then [] else
  let type := (r.map (·.type)).getD "link"
  let marker := marker? type
  let markers :=
    if r.any (·.markerAt = .source) then endMarkers p.colors e.points marker none
    else endMarkers p.colors e.points none marker
  let notes := match r with
    | some r =>
      cardinality p r.sourceCardinality e.points
        ++ cardinality p r.targetCardinality e.points.reverse
    | none => []
  p.route e.points (if isDashed type then some "6 4" else none) :: markers ++ edgeLabel p e ++ notes

def picture (p : Paint) (title : Option String) (s : Scene) : Document :=
  p.document s.width s.height title (s.body (namespaceFrame p) (node p) (edge p))

end LayeredDiagram.Svg.ClassDiagram
