import LayeredDiagram.ClassDiagram.Member
import LayeredDiagram.Text.Lines
/-!
Reading class diagrams. Outside class blocks a line opens a namespace or a class block, declares a
class, gives a class a stereotype or a member, or relates two classes; classes are declared by their
first mention. Inside a class block every line up to the closing brace is a member or a stereotype.
-/

namespace LayeredDiagram.ClassDiagram

open LayeredDiagram.Text

-- Arrows with the type of relationship and the end that carries the marker.
def arrows : List (String × String × End) := [
  ("<|--", "inheritance", .source), ("<|..", "realization", .source),
  ("..|>", "realization", .target), ("..>", "dependency", .target),
  ("*--", "composition", .source), ("o--", "aggregation", .source),
  ("--*", "composition", .target), ("--o", "aggregation", .target),
  ("-->", "association", .target), ("--", "link", .target)]

-- The meaning of a line outside class blocks. Names of classes are as written.
inductive Statement where
  | close
  | openNamespace (name : String)
  | openClass (name : List Char)
  | declaration (name : List Char)
  | stereotype (name : List Char) (text : String)
  | relationship (source target : List Char) (r : Relationship)
  | member (name : List Char) (m : Member)

namespace Statement

def isNameChar (c : Char) : Bool :=
  isWord c || c == '~'

def name? (s : List Char) : Option Reading :=
  run? isNameChar s

-- The text after a keyword and a gap.
def afterKeyword? (keyword : String) (s : List Char) : Option (List Char) :=
  (after? keyword.toList s).bind gap?

-- Whether only an opening brace follows.
def opens (s : List Char) : Bool :=
  trimStart s == ['\x7b']

def openNamespace? (line : List Char) : Option Statement := do
  let rest ← afterKeyword? "namespace" line
  let (name, rest) ← run? (fun c => isWord c || c == '.') rest
  if opens rest then some (.openNamespace (String.ofList name)) else none

def class? (line : List Char) : Option Statement := do
  let rest ← afterKeyword? "class" line
  let (name, rest) ← name? rest
  if opens rest then some (.openClass name)
  else if rest.isEmpty then some (.declaration name)
  else none

-- A text in double angle brackets, trimmed, and what follows.
def bracketed? (line : List Char) : Option Reading := do
  let rest ← after? ['<', '<'] line
  let (text, rest) ← run? (· ≠ '>') rest
  let rest ← after? ['>', '>'] rest
  some (trim text, rest)

def stereotype? (line : List Char) : Option Statement := do
  let (text, rest) ← bracketed? line
  let rest ← gap? rest
  let (name, rest) ← name? rest
  if rest.isEmpty then some (.stereotype name (String.ofList text)) else none

-- A quoted cardinality with a gap behind it, if the text starts with a quote.
def cardinality? (s : List Char) : Option (Option String × List Char) :=
  match s with
  | '"' :: _ => do
    let (text, rest) ← quotation? s
    let rest ← gap? rest
    some (if text.isEmpty then none else some (String.ofList text), rest)
  | _ => some (none, s)

-- What may follow the target of a relationship: nothing, or a colon and a label.
def label? (s : List Char) : Option (Option String) :=
  match trimStart s with
  | [] => if s.isEmpty then some none else none
  | ':' :: rest =>
    let text := trim rest
    some (if text.isEmpty then none else some (String.ofList text))
  | _ => none

def relationship? (line : List Char) : Option Statement := do
  let (source, rest) ← name? line
  let rest ← gap? rest
  let (sourceCardinality, rest) ← cardinality? rest
  let arrow := rest.takeWhile (!isBlank ·)
  let (type, markerAt) ← arrows.lookup (String.ofList arrow)
  let rest ← gap? (rest.drop arrow.length)
  let (targetCardinality, rest) ← cardinality? rest
  let (target, rest) ← name? rest
  let label ← label? rest
  some (.relationship source target
    { source := "", target := "", type, markerAt, label, sourceCardinality, targetCardinality })

def member? (line : List Char) : Option Statement := do
  let (name, rest) ← name? line
  match trimStart rest with
  | ':' :: text =>
    let text := trimStart text
    if text.isEmpty then none else some (.member name (Member.ofText text))
  | _ => none

-- The meaning of a trimmed line.
def ofLine? (line : List Char) : Option Statement :=
  if line = ['\x7d'] then some .close
  else
    openNamespace? line
      |>.or (class? line)
      |>.or (stereotype? line)
      |>.or (relationship? line)
      |>.or (member? line)

end Statement

-- What has been read so far, with the namespace and the class block that are open.
structure Draft where
  diagram : Diagram := {}
  inNamespace : Option String := none
  inClass : Option String := none

namespace Draft

-- Reads a line inside the block of a class.
def addToClass (d : Draft) (id : String) (line : List Char) : Draft :=
  if line = ['\x7d'] then { d with inClass := none }
  else
    match Statement.bracketed? line with
    | some (text, []) =>
      { d with diagram := d.diagram.modify id fun c => { c with stereotype := some (String.ofList text) } }
    | _ => { d with diagram := d.diagram.modify id fun c => c.addMember (Member.ofText line) }

def add (d : Draft) : Statement → Draft
  | .close => { d with inNamespace := none }
  | .openNamespace name =>
    { d with diagram := d.diagram.addNamespace name, inNamespace := some name }
  | .openClass name =>
    let (diagram, id) := d.diagram.ensureClass name d.inNamespace
    { d with diagram, inClass := some id }
  | .declaration name => { d with diagram := (d.diagram.ensureClass name d.inNamespace).1 }
  | .stereotype name text =>
    let (diagram, id) := d.diagram.ensureClass name none
    { d with diagram := diagram.modify id fun c => { c with stereotype := some text } }
  | .relationship source target r =>
    let (diagram, source) := d.diagram.ensureClass source none
    let (diagram, target) := diagram.ensureClass target none
    let r := { r with source, target }
    { d with diagram := { diagram with relationships := diagram.relationships ++ [r] } }
  | .member name m =>
    let (diagram, id) := d.diagram.ensureClass name none
    { d with diagram := diagram.modify id fun c => c.addMember m }

def skip (d : Draft) (line : List Char) : Draft :=
  { d with diagram := { d.diagram with skipped := d.diagram.skipped ++ [String.ofList line] } }

def addLine (d : Draft) (line : Text.Line) : Draft :=
  match d.inClass with
  | some id => d.addToClass id line.content
  | none =>
    match Statement.ofLine? line.content with
    | some s => d.add s
    | none => d.skip line.content

end Draft

-- The diagram of a text; its first meaningful line is the header.
def Diagram.ofText (text : String) : Diagram :=
  ((Text.bodyLines text).foldl Draft.addLine {}).diagram

end LayeredDiagram.ClassDiagram
