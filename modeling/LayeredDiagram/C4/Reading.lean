import LayeredDiagram.C4.Model
import LayeredDiagram.Text.Arguments
import LayeredDiagram.Text.Lines
import LayeredDiagram.Text.Scan
/-!
Reading C4 texts. Each line is a title, an element, a relationship, the start of a boundary, or the
brace that ends one; any other line has no meaning. A brace without an open boundary is ignored, and
a boundary without a brace stays open to the end.
-/

namespace LayeredDiagram.C4

def headers : List String :=
  ["C4Context", "C4Container", "C4Component", "C4Dynamic", "C4Deployment"]

-- Elements without a technology argument.
def plainKinds : List String :=
  ["Person", "System"]

-- Elements whose third argument is a technology.
def technicalKinds : List String :=
  ["Container", "ContainerDb", "ContainerQueue", "Component", "ComponentDb", "ComponentQueue"]

-- The mark of elements outside the described system.
def externalMark : String :=
  "_Ext"

def boundaryKinds : List String :=
  ["Boundary", "System_Boundary", "Container_Boundary", "Enterprise_Boundary", "Deployment_Node"]

-- Relationship keywords with the direction they ask for.
def relationshipKinds : List (String × Option Direction) := [
  ("Rel", none), ("BiRel", none), ("Rel_D", some .down), ("Rel_U", some .up),
  ("Rel_L", some .left), ("Rel_R", some .right), ("Rel_Back", some .back)]

inductive Statement where
  | title (text : String)
  | boundary (kind id label : String)
  | close
  | element (e : Element)
  | relationship (r : Relationship)

namespace Statement

-- Spellings of the letters of `title`; the letter `i` may lack its dot or keep it as a capital.
def titleLetters : List (List Char) :=
  [['t', 'T'], ['i', 'I', 'ı', 'İ'], ['t', 'T'], ['l', 'L'], ['e', 'E']]

-- The text after the keyword `title` in any case.
def afterTitle? : List (List Char) → List Char → Option (List Char)
  | [], s => some s
  | letters :: more, c :: s => if letters.contains c then afterTitle? more s else none
  | _ :: _, [] => none

def title? (line : List Char) : Option String := do
  let rest ← afterTitle? titleLetters line
  let text ← Text.gap? rest
  if text.isEmpty then none else some (String.ofList (Text.unquote (Text.trim text)))

-- A keyword with arguments in parentheses, and what follows. The first closing parenthesis ends the
-- arguments.
def call? (line : List Char) : Option (String × List (List Char) × List Char) := do
  let (keyword, rest) ← Text.word? line
  match Text.trimStart rest with
  | '(' :: rest =>
    match rest.dropWhile (· ≠ ')') with
    | _ :: after => some (String.ofList keyword, Text.arguments (rest.takeWhile (· ≠ ')')), after)
    | [] => none
  | _ => none

-- The argument at a position without its quotes; a missing one is empty.
def argument (args : List (List Char)) (i : Nat) : String :=
  String.ofList (Text.unquote (args[i]?.getD []))

-- An argument that is given and not empty.
def optionalArgument (args : List (List Char)) (i : Nat) : Option String :=
  shown? (some (argument args i))

-- The kind of an element keyword, and whether it is marked as external.
def elementKind? (keyword : String) : Option (String × Bool) :=
  let kinds := plainKinds ++ technicalKinds
  match kinds.find? (· == keyword), kinds.find? (fun k => k ++ externalMark == keyword) with
  | some k, _ => some (k, false)
  | none, some k => some (k, true)
  | none, none => none

def element? (keyword : String) (args : List (List Char)) : Option Element := do
  let (kind, isExternal) ← elementKind? keyword
  let technical := technicalKinds.contains kind
  return {
    kind, isExternal
    id := argument args 0
    label := argument args 1
    technology := if technical then optionalArgument args 2 else none
    description := optionalArgument args (if technical then 3 else 2) }

-- A relationship needs its two ends and a label.
def relationship? (keyword : String) (args : List (List Char)) : Option Relationship := do
  let direction ← relationshipKinds.lookup keyword
  if args.length < 3 then none
  else
    return {
      direction
      source := argument args 0
      target := argument args 1
      label := argument args 2
      technology := (args[3]?.filter (!·.isEmpty)).map fun a => String.ofList (Text.unquote a)
      isBidirectional := keyword == "BiRel" }

-- The start of a boundary. Without a second argument its id is its label.
def boundary? (keyword : String) (args : List (List Char)) : Option Statement :=
  if boundaryKinds.contains keyword then
    let id := argument args 0
    some (.boundary keyword id (if 1 < args.length then argument args 1 else id))
  else none

-- The meaning of a trimmed line.
def ofLine? (line : List Char) : Option Statement :=
  match title? line with
  | some text => some (.title text)
  | none =>
    if line = ['\x7d'] then some .close
    else do
      let (keyword, args, after) ← call? line
      if Text.trimStart after = ['\x7b'] then boundary? keyword args
      else if after.isEmpty then
        (element? keyword args).map .element |>.or ((relationship? keyword args).map .relationship)
      else none

end Statement

-- What the statements so far say, and the boundaries still open, innermost first.
structure Draft where
  diagram : Diagram
  -- Boundaries whose end has not been read.
  opened : List Boundary := []

namespace Draft

def parent? (d : Draft) : Option String :=
  d.opened.head?.map (·.id)

def close (d : Draft) : Draft :=
  match d.opened with
  | [] => d
  | [b] => { d with diagram := { d.diagram with boundaries := d.diagram.boundaries ++ [b] }, opened := [] }
  | b :: p :: outer => { d with opened := { p with children := p.children ++ [b] } :: outer }

-- Adds an element to the diagram and to the innermost open boundary.
def addElement (d : Draft) (e : Element) : Draft :=
  let e := { e with parent := d.parent? }
  let diagram := { d.diagram with elements := d.diagram.elements ++ [e] }
  match d.opened with
  | [] => { d with diagram }
  | b :: outer => { d with diagram, opened := { b with elements := b.elements ++ [e] } :: outer }

def add (d : Draft) : Statement → Draft
  | .title text => { d with diagram := { d.diagram with title := some text } }
  | .boundary kind id label => { d with opened := { id, label, kind, parent := d.parent? } :: d.opened }
  | .close => d.close
  | .element e => d.addElement e
  | .relationship r =>
    { d with diagram := { d.diagram with relationships := d.diagram.relationships ++ [r] } }

def finish (d : Draft) : Diagram :=
  (d.opened.foldl (fun d _ => d.close) d).diagram

end Draft

namespace Diagram

-- The diagram that a sequence of statements describes.
def ofStatements (kind : String) (statements : List Statement) : Diagram :=
  (statements.foldl Draft.add { diagram := { kind } }).finish

-- The diagram of a text. A first line that is no header counts as one of the default kind.
def ofText (text : String) : Diagram :=
  let lines := Text.meaningfulLines text
  let header := String.ofList (lines.headD [])
  let kind := if headers.contains header then header else "C4Context"
  ofStatements kind ((lines.drop 1).filterMap Statement.ofLine?)

end Diagram

end LayeredDiagram.C4
