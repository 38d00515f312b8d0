import LayeredDiagram.TextArt.Plan
/-!
Drawing a laid out plan on a canvas: first the groups, then the boxes, the connectors, and last the
labels.
-/

namespace LayeredDiagram.TextArt

variable {α : Type} [Scalar α]

-- A rectangle of cells.
structure CellRect where
  x : Int
  y : Int
  width : Int
  height : Int
  deriving DecidableEq

namespace CellRect

def contains (r : CellRect) (p : Cell) : Bool :=
  r.x ≤ p.x && p.x < r.x + r.width && r.y ≤ p.y && p.y < r.y + r.height

def ofNode (n : PlacedNode α) : CellRect :=
  ⟨toCell n.x, toCell n.y, Scalar.nearest n.width, Scalar.nearest n.height⟩

-- Both corners of a group are rounded, so that neighbouring groups stay apart.
def ofGroup (g : PlacedGroup α) : CellRect :=
  ⟨toCell g.x, toCell g.y, toCell g.right - toCell g.x, toCell g.bottom - toCell g.y⟩

def corner (r : CellRect) : Cell :=
  ⟨r.x, r.y⟩

end CellRect

-- The neighbouring cell on the way to another one, along the row first.
def stepToward (p other : Cell) : Cell :=
  match p.heading? other with
  | some h => p.step h
  | none => p

-- The first cell of a path moved one step on, if it lies in a rectangle.
def leave (rect : Option CellRect) : List Cell → List Cell
  | a :: b :: rest => if rect.any (·.contains a) then stepToward a b :: b :: rest else a :: b :: rest
  | s => s

-- The cells where a route bends, with both ends outside their boxes.
def edgeCells (source target : Option CellRect) (route : List (Point α)) : List Cell :=
  let cells : List Cell := route.map fun p => ⟨toCell p.x, toCell p.y⟩
  (leave target (leave source cells).reverse).reverse

section Groups

def drawGroup (dashed : Bool) (c : Canvas) (g : PlacedGroup α) : Canvas :=
  let r := CellRect.ofGroup g
  let c := c.drawFrame r.corner r.width r.height dashed
  match g.label.filter (· ≠ "") with
  | some label => c.drawText ⟨r.x + 2, r.y + 1⟩ label "group_label"
  | none => c

end Groups

section Boxes

-- The three rows of a person: head, body and shoulders; an empty entry is a blank.
def personGlyphs : List (Int × List (Option Glyph)) := [
  (-1, [some .topLeft, some .horizontal, some .topRight]),
  (-1, [some .vertical, none, some .vertical]),
  (-2, [some .horizontal, some .teeUp, some .horizontal, some .teeUp, some .horizontal])]

def drawPersonRow (c : Canvas) (p : Cell) : List (Option Glyph) → Canvas
  | [] => c
  | g :: rest =>
    let text := match g with
      | some g => c.charset.text g
      | none => " "
    drawPersonRow (c.set p text "person" "AsciiRenderer._draw_person") ⟨p.x + 1, p.y⟩ rest

def drawPerson (c : Canvas) (r : CellRect) : Canvas :=
  let middle := r.x + r.width / 2
  personGlyphs.zipIdx.foldl (fun c ((offset, glyphs), row) =>
    drawPersonRow c ⟨middle + offset, r.y + (row : Int)⟩ glyphs) c

def drawFigure (c : Canvas) (f : Figure) (r : CellRect) : Canvas :=
  if f.isPerson then
    (drawPerson c r).drawBox ⟨r.x, r.y + (personRows : Int)⟩ r.width f.sections
  else c.drawBox r.corner r.width f.sections

end Boxes

section Labels

def drawLabel (c : Canvas) (e : PlacedEdge α) : Canvas :=
  match e.label.filter (· ≠ ""), e.labelAnchor with
  | some label, some anchor =>
    let x := toCell anchor.x - ((Text.displayWidth label / 2 : Nat) : Int)
    c.drawText ⟨x, toCell anchor.y⟩ label "edge_label"
  | _, _ => c

-- Draws a text beside the end of a path: right of a vertical line, above a horizontal one.
def drawNote (c : Canvas) (note : Option String) : List Cell → Canvas
  | stop :: toward :: _ =>
    match note.filter (· ≠ "") with
    | some text =>
      let p : Cell := if toward.x = stop.x then ⟨stop.x + 2, stop.y⟩ else ⟨stop.x, stop.y - 1⟩
      c.drawText p text "cardinality"
    | none => c
  | _ => c

def drawLabels (c : Canvas) (e : PlacedEdge α) (k : Connector) (cells : List Cell) : Canvas :=
  drawNote (drawNote (drawLabel c e) k.startNote cells) k.stopNote cells.reverse

end Labels

-- A plan with its layout in cells.
structure Drawing (α : Type) where
  plan : Plan α
  placed : PlacedGraph α

namespace Drawing

def rects (d : Drawing α) : List (String × CellRect) :=
  d.placed.nodes.map fun n => (n.id, CellRect.ofNode n)

-- The content of every box with its rectangle.
def figures (d : Drawing α) : List (Figure × CellRect) :=
  d.plan.figures.zip (d.rects.map (·.2))

-- Every edge with its look and its cells.
def paths (d : Drawing α) : List (PlacedEdge α × Connector × List Cell) :=
  let rects := d.rects
  (d.placed.edges.zip d.plan.connectors).map fun (e, k) =>
    (e, k, edgeCells (rects.lookup e.source) (rects.lookup e.target) e.points)

-- The blank canvas that the layout asks for.
def start (d : Drawing α) (charset : Charset) (recording : Bool) : Canvas :=
  Canvas.blank (toCell d.placed.width + 1).toNat (toCell d.placed.height + 1).toNat charset recording

def drawGroups (d : Drawing α) (c : Canvas) : Canvas :=
  d.placed.allGroups.foldl (drawGroup d.plan.hasDashedGroups) c

def drawFigures (d : Drawing α) (c : Canvas) : Canvas :=
  d.figures.foldl (fun c (f, r) => drawFigure c f r) c

def drawPaths (d : Drawing α) (c : Canvas) : Canvas :=
  d.paths.foldl (fun c (_, k, cells) => c.drawPath cells k.isDashed k.start k.stop) c

def drawAllLabels (d : Drawing α) (c : Canvas) : Canvas :=
  d.paths.foldl (fun c (e, k, cells) => drawLabels c e k cells) c

end Drawing

-- The canvas after each pass.
structure Passes where
  groups : Canvas
  boxes : Canvas
  edges : Canvas
  labels : Canvas

namespace Drawing

def passes (d : Drawing α) (charset : Charset) (recording : Bool) : Passes :=
  let groups := d.drawGroups (d.start charset recording)
  let boxes := d.drawFigures groups
  let edges := d.drawPaths boxes
  { groups, boxes, edges, labels := d.drawAllLabels edges }

end Drawing

def drawingOf (c : Config α) (sweeps : Nat) (d : Diagram) : Except LayoutError (Drawing α) :=
  let plan := planOf c d
  (plan.graph.layout sweeps).map fun placed => { plan, placed }

-- The picture under the title of the diagram, if it has one.
def titled (d : Diagram) (art : String) : String :=
  match d with
  | .c4 d =>
    match C4.shown? d.title with
    | some title => if art = "" then title else title ++ "\n\n" ++ art
    | none => art
  | _ => art

end LayeredDiagram.TextArt
