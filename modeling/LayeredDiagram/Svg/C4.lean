import LayeredDiagram.C4.Model
import LayeredDiagram.Svg.Paint
/-!
Pictures of C4 diagrams.
-/

namespace LayeredDiagram.Svg.C4

open LayeredDiagram.C4

-- Elements and relationships may be missing; then only the shapes are drawn.
abbrev Scene := Svg.Scene (Option C4.Element) (Option Relationship)

-- A text line of an element.
structure Line where
  text : String
  size : Quantity
  weight : Int
  isItalic : Bool
  fill : String

def lineSpacing : Quantity := 18

-- The label, the technology unless a person is shown, and the description.
def elementLines (p : Paint) (e : C4.Element) : List Line :=
  let technology := if e.kind == "Person" then none else shown? e.technology
  ⟨e.label, 13, 600, false, p.colors.text⟩
    :: (technology.map fun t => Line.mk ("[" ++ t ++ "]") 10 400 true p.colors.textMuted).toList
    ++ ((shown? e.description).map fun t => Line.mk t 11 400 false p.colors.textSec).toList

def stack (p : Paint) (x y : Quantity) : List Line → List Svg.Element
  | [] => []
  | line :: rest =>
    let style := p.text line.size line.fill line.weight
    let style := if line.isItalic then { style with extra := [Paint.italic] } else style
    label style line.text ⟨x, y⟩ :: stack p x (y + lineSpacing) rest

-- The text of an element in the middle of a box.
def textBlock (p : Paint) (e : C4.Element) (x top height : Quantity) : List Svg.Element :=
  let all := elementLines p e
  stack p x (top + (height - .whole all.length * lineSpacing) / 2 + 12) all

def fill (p : Paint) (e : Option C4.Element) : String :=
  if e.any (·.isExternal) then p.colors.textMuted else p.colors.nodeFill

-- A box with round corners and the text of an element.
def box (p : Paint) (n : PlacedNode Quantity) (e : Option C4.Element) (top height : Quantity) :
    List Svg.Element :=
  let frame := rectangle ⟨n.x, top⟩ n.width height (some 6) (fill p e) (some p.outerStroke)
  frame :: (e.map fun e => textBlock p e n.center.x top height).getD []

-- Top of the body of a person, below the head.
def bodyTop : Quantity := 34

def node (p : Paint) (n : PlacedNode Quantity) (e : Option C4.Element) : List Svg.Element :=
  if n.kind = some "Person" then
    let head := circle ⟨n.center.x, n.y + 18⟩ 14 (fill p e) (some p.outerStroke)
    head :: box p n e (n.y + bodyTop) (n.height - bodyTop)
  else box p n e n.y n.height

-- The kind of a boundary in words.
def boundaryKind (g : PlacedGroup Quantity) : String :=
  let kind := (shown? g.kind).getD "Boundary"
  String.ofList (kind.toList.map fun c => if c = '_' then ' ' else c)

def boundary (p : Paint) (g : PlacedGroup Quantity) : List Svg.Element :=
  let kind := "[" ++ boundaryKind g ++ "]"
  [rectangle ⟨g.x, g.y⟩ g.width g.height (some 2) "none" (some (p.outerStroke (some "8 4"))),
    label { p.heading 10 p.colors.textMuted 400 with extra := [Paint.italic] } kind
      ⟨g.x + 10, g.y + 16⟩,
    label (p.heading 12 p.colors.textSec 600) g.labelText ⟨g.x + 10, g.y + 30⟩]

-- The label on its pill, with the technology below it if there is one.
def relationshipLabel (p : Paint) (r : Relationship) (place : Point Quantity) : List Svg.Element :=
  match shown? r.technology with
  | some t =>
    let technology := "[" ++ t ++ "]"
    [p.pill (r.label ++ " " ++ technology) place 28,
      label p.edgeText r.label ⟨place.x, place.y - 5⟩,
      label { p.text 10 p.colors.textFaint with extra := [Paint.italic] } technology
        ⟨place.x, place.y + 8⟩]
  | none => [p.pill r.label place 18, label p.edgeText r.label place]

def edge (p : Paint) (e : PlacedEdge Quantity) (r : Option Relationship) : List Svg.Element :=
  if e.points.length < 2 then [] else
  let start := if r.any (·.isBidirectional) then some Marker.filledArrow else none
  let text := match r with
    | some r => if r.label = "" then [] else relationshipLabel p r (Paint.labelPlace e)
    | none => []
  p.route e.points none :: endMarkers p.colors e.points start (some .filledArrow) ++ text

-- The picture of a C4 diagram, with a title if it has one.
def picture (p : Paint) (title : Option String) (s : Scene) : Document :=
  p.document s.width s.height title (s.body (boundary p) (node p) (edge p))

end LayeredDiagram.Svg.C4
