import LayeredDiagram.Graph.Record
import LayeredDiagram.Layout.Magnitude
import LayeredDiagram.Render.Event
import LayeredDiagram.Svg.ArchiMate
import LayeredDiagram.Svg.C4
import LayeredDiagram.Svg.ClassDiagram
import LayeredDiagram.TextArt.Draw
import LayeredDiagram.Trace.Basic
/-!
Turning a diagram text into text art or into an SVG document. Besides the picture, or the reason why there is
none, a run yields the events on its way, and on demand a trace of the stages that it reached.
-/

namespace LayeredDiagram

-- The constants of all pictures.
structure Settings where
  pixels : Config Quantity := Config.standard
  cells : TextArt.Config Quantity := .standard
  sweeps : Nat := SizedGraph.defaultSweeps

-- What a call may change of the cell constants.
structure ArtOptions where
  usesAscii : Option Bool := none
  paddingX : Option Quantity := none
  paddingY : Option Quantity := none

structure SvgOptions where
  palette : Palette := {}
  isTransparent : Bool := false
  fontFamily : Option String := some Svg.defaultFamily

-- The outcome of one call.
structure Run where
  result : Except Failure String
  events : List Event
  -- The stages reached, if they were to be recorded.
  trace : Option Trace

-- The constants of text art under some options.
def ArtOptions.apply (o : ArtOptions) (c : TextArt.Config Quantity) : TextArt.Config Quantity :=
  { c with
    charset := (o.usesAscii.map Charset.ofAscii).getD c.charset
    paddingX := o.paddingX.getD c.paddingX
    paddingY := o.paddingY.getD c.paddingY }

namespace Trace

-- The trace of a text before anything is known about it.
def start (debug : Bool) (input format : String) : Option Trace :=
  if debug then some { input, format } else none

-- The trace after the text was read.
def parsed (d : Diagram) (t : Trace) : Trace :=
  { t with family := d.family.name, stages := t.stages ++ [{ name := "parse", data := d.summary }] }

-- The trace after a layout in pixels.
def laidOut (g : PlacedGraph Quantity) (t : Trace) : Trace :=
  t.addStage { name := "layout", data := g.fields }

-- The trace after a layout in cells.
def laidOutInCells (g : PlacedGraph Quantity) (t : Trace) : Trace :=
  t.addStage {
    name := "cell_layout"
    data := [("width", .number g.width), ("height", .number g.height),
      ("nodes", .nat g.nodes.length), ("edges", .nat g.edges.length),
      ("groups", .nat g.groups.length)] }

-- The trace after all passes of drawing, with everything that was written.
def drawn (p : TextArt.Passes) (t : Trace) : Trace :=
  let stage (name : String) (c : Canvas) : Stage := { name, canvas := some c.renderedRows }
  { t with
    stages := t.stages ++ [stage "groups_drawn" p.groups, stage "boxes_drawn" p.boxes,
      stage "edges_drawn" p.edges, stage "labels_drawn" p.labels]
    placements := t.placements ++ p.labels.placements }

-- The trace after a document was written.
def written (document : String) (t : Trace) : Trace :=
  t.addStage { name := "render", data := [("bytes", .nat document.length)] }

end Trace

-- Rows of a text; the empty text has none.
def rowCount (s : String) : Nat :=
  if s = "" then 0 else s.toList.count '\n' + 1

namespace Settings

def layout (s : Settings) (d : Diagram) : Except LayoutError (PlacedGraph Quantity) :=
  (d.toGraph s.pixels).layoutQuantities s.sweeps

def drawing (s : Settings) (cells : TextArt.Config Quantity) (d : Diagram) :
    Except LayoutError (TextArt.Drawing Quantity) :=
  let plan := TextArt.planOf cells d
  (plan.graph.layoutQuantities s.sweeps).map fun placed => { plan, placed }

-- The picture of a text in characters.
def textArt (s : Settings) (o : ArtOptions) (debug : Bool) (input : String) : Run :=
  let cells := o.apply s.cells
  let trace := Trace.start debug input "ascii"
  match Diagram.ofText input with
  | .error e => { result := .error (.parse e), events := [], trace }
  | .ok d =>
    let trace := trace.map (·.parsed d)
    let events := Event.ofReading d ++ Event.ofSizing d
    match s.drawing cells d with
    | .error e => { result := .error (.layout e), events, trace }
    | .ok drawing =>
      let trace := trace.map (·.laidOutInCells drawing.placed)
      match drawing.placed.canvasFault? with
      | some f => { result := .error (.layout (.number f)), events, trace }
      | none =>
        let passes := drawing.passes cells.charset debug
        let art := TextArt.titled d passes.labels.render
        { result := .ok art
          events := events ++ [.drawn (rowCount art)]
          trace := trace.map (·.drawn passes) }

end Settings

namespace Svg

-- Whether a class node has something above its name or not, its heights are those of its
-- configuration.
def classContent (c : ClassDiagram.Config Quantity) (n : LayeredDiagram.ClassDiagram.Class) :
    Svg.ClassDiagram.Content :=
  let parts := n.compartments c
  { class? := some n, headerHeight := some parts.header, attributesHeight := some parts.attributes }

-- The picture of a laid out diagram.
def pictureOf (p : Paint) (c : Config Quantity) (g : PlacedGraph Quantity) :
    Diagram → Except ColorError Document
  | .c4 d =>
    .ok (C4.picture p d.title
      (.ofGraph g (d.uniqueElements.map some) (d.knownRelationships.map some)))
  | .archimate d =>
    ArchiMate.picture p none
      (.ofGraph g (d.elements.map fun _ => ()) (d.knownRelationships.map some))
  | .classDiagram d =>
    .ok (ClassDiagram.picture p none
      (.ofGraph g (d.classes.map (classContent c.classDiagram)) (d.relationships.map some)))

-- The text of the picture of a laid out diagram, in the colours of a palette.
def documentText (o : SvgOptions) (c : Config Quantity) (g : PlacedGraph Quantity) (d : Diagram) :
    Except ColorError String := do
  let colors ← o.palette.resolve
  let paint : Paint := { colors, fontFamily := o.fontFamily, isTransparent := o.isTransparent }
  let document ← pictureOf paint c g d
  return document.write

end Svg

namespace Settings

def svg (s : Settings) (o : SvgOptions) (debug : Bool) (input : String) : Run :=
  let trace := Trace.start debug input "svg"
  match Diagram.ofText input with
  | .error e => { result := .error (.parse e), events := [], trace }
  | .ok d =>
    let trace := trace.map (·.parsed d)
    let events := Event.ofReading d ++ Event.ofSizing d
    match s.layout d with
    | .error e => { result := .error (.layout e), events, trace }
    | .ok g =>
      let trace := trace.map (·.laidOut g)
      let events := events ++ [.laidOut g.nodes.length g.edges.length g.width g.height]
      match Svg.documentText o s.pixels g d with
      | .error e => { result := .error (.color e), events, trace }
      | .ok text => { result := .ok text, events, trace := trace.map (·.written text) }

end Settings

end LayeredDiagram
