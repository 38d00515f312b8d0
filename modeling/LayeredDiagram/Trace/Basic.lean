import LayeredDiagram.Canvas.Placement
import LayeredDiagram.Trace.Stage
/-!
Traces: the stages that a text went through, and every character written to its canvas.
-/

namespace LayeredDiagram

structure Trace where
  stages : List Stage := []
  placements : List Placement := []
  input : String := ""
  -- The family of the diagram; empty if it is not known.
  family : String := ""
  -- What the text was turned into; empty if it is not known.
  format : String := ""

namespace Trace

def addStage (t : Trace) (s : Stage) : Trace :=
  { t with stages := t.stages ++ [s] }

def addPlacement (t : Trace) (p : Placement) : Trace :=
  { t with placements := t.placements ++ [p] }

-- The first stage of a name.
def stage? (t : Trace) (name : String) : Option Stage :=
  t.stages.find? (·.name == name)

-- The rows drawn after a stage, if there are any.
def canvasAt? (t : Trace) (name : String) : Option (List String) :=
  (t.stage? name).bind Stage.canvasRows?

-- The writes to a cell.
def placementsAt (t : Trace) (x y : Int) : List Placement :=
  t.placements.filter fun p => p.x = x ∧ p.y = y

-- The writes that merged lines into one glyph.
def junctions (t : Trace) : List Placement :=
  t.placements.filter (·.isJunction)

-- How often each reason occurs, by first occurrence.
def reasonCounts (t : Trace) : List (String × Nat) :=
  let reasons := t.placements.map (·.reason)
  reasons.eraseDups.map fun r => (r, reasons.count r)

-- The reasons by falling count; of equally frequent ones the earlier comes first.
def frequentReasons (t : Trace) : List (String × Nat) :=
  t.reasonCounts.mergeSort fun a b => b.2 ≤ a.2

-- A text followed by spaces up to a width.
def padRight (width : Nat) (s : String) : String :=
  s ++ String.ofList (List.replicate (width - s.length) ' ')

-- A text, or another one in its place if it is empty.
def orElse (s other : String) : String :=
  if s.isEmpty then other else s

-- The family, the input, the names of the stages, and the counts of placements. Stages that have
-- drawn something carry a star.
def summary (t : Trace) : String :=
  let family := orElse t.family "unknown"
  let format := orElse t.format "unknown"
  let names := t.stages.map fun s => if s.canvasRows?.isSome then s.name ++ "*" else s.name
  let listed := orElse (", ".intercalate names) "none"
  let input := Text.quoted (Text.shorten Stage.valueWidth t.input)
  "\n".intercalate <|
    [s!"Render trace: {family} diagram -> {format}",
      s!"Input: {input}",
      s!"Stages ({t.stages.length}): {listed}",
      s!"Placements: {t.placements.length} (junctions: {t.junctions.length})"]
    ++ t.frequentReasons.map fun (reason, count) => "  " ++ padRight 14 reason ++ toString count

-- The summary, all stages and all placements.
def dump (t : Trace) : String :=
  "\n".intercalate <|
    [t.summary, "", "Stages", "------"] ++ t.stages.map (·.describe)
    ++ ["", "Placements", "----------"] ++ t.placements.map (·.describe)

end Trace

end LayeredDiagram
