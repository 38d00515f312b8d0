import LayeredDiagram.ArchiMate.Model
import LayeredDiagram.Text.Lines
import LayeredDiagram.Text.Scan
/-!
Reading ArchiMate texts. A layer name with a colon opens the block of the layer; elements are read
inside blocks only. A line that is not indented and says nothing else ends the block.
-/

namespace LayeredDiagram.ArchiMate

namespace Reading

open LayeredDiagram.Text

-- `name:` with the name of a layer.
def layer? (line : List Char) : Option Layer := do
  let (name, rest) ← word? line
  if rest = [':'] then Layer.ofName? (String.ofList name) else none

-- `a -->|type| b`, or `a --> b` for an association.
def relationship? (line : List Char) : Option Relationship := do
  let (source, rest) ← word? line
  let rest ← gap? rest
  let rest ← after? "-->".toList rest
  match rest with
  | '|' :: rest =>
    let (type, rest) ← word? rest
    let rest ← after? ['|'] rest
    let rest ← gap? rest
    let (target, rest) ← word? rest
    if atEnd rest && relationshipTypes.contains (String.ofList type) then
      return ⟨String.ofList source, String.ofList target, String.ofList type, none⟩
    else none
  | _ =>
    let rest ← gap? rest
    let (target, rest) ← word? rest
    if atEnd rest then
      return { source := String.ofList source, target := String.ofList target }
    else none

-- A label with every run of blanks replaced by one underscore.
def underscored : List Char → List Char
  | [] => []
  | c :: rest =>
    if isBlank c then
      match rest with
      | d :: _ => if isBlank d then underscored rest else '_' :: underscored rest
      | [] => ['_']
    else c :: underscored rest

-- What follows the quoted label of an element: nothing, or a word that names it.
def name? (label rest : List Char) : Option (List Char) :=
  if atEnd rest then some (underscored label)
  else do
    let rest ← gap? rest
    let rest ← after? ['a', 's'] rest
    let rest ← gap? rest
    let (id, rest) ← word? rest
    if atEnd rest then some id else none

-- A type with what it declares: a quoted label, possibly with a name, or a name alone.
def typed? (line : List Char) : Option Element := do
  let (type, rest) ← word? line
  let rest ← gap? rest
  match quotation? rest with
  | some (label, rest) =>
    if label.isEmpty then none
    else
      let id ← name? label rest
      return ⟨String.ofList id, String.ofList label, String.ofList type⟩
  | none =>
    let (id, rest) ← word? rest
    if atEnd rest then return ⟨String.ofList id, String.ofList id, String.ofList type⟩ else none

def element? (line : List Char) : Option Element :=
  (typed? line).filter fun e => isElementType e.type

end Reading

-- What has been read so far, and the layer whose block is open.
structure Draft where
  diagram : Diagram := {}
  current : Option Layer := none

namespace Draft

def openLayer (d : Draft) (l : Layer) : Draft :=
  let layers := if d.diagram.layers.contains l then d.diagram.layers else d.diagram.layers ++ [l]
  { diagram := { d.diagram with layers }, current := some l }

def addRelationship (d : Draft) (r : Relationship) : Draft :=
  { d with diagram := { d.diagram with relationships := d.diagram.relationships ++ [r] } }

def addElement (d : Draft) (l : Layer) (e : Element) : Draft :=
  { d with diagram := { d.diagram with declarations := d.diagram.declarations ++ [⟨l, e⟩] } }

-- Reads a line inside or outside a block.
def addLine (d : Draft) (line : Text.Line) : Draft :=
  match Reading.layer? line.content with
  | some l => d.openLayer l
  | none =>
    match Reading.relationship? line.content with
    | some r => d.addRelationship r
    | none =>
      match d.current with
      | none => d
      | some l =>
        match Reading.element? line.content with
        | some e => d.addElement l e
        | none => if line.isIndented then d else { d with current := none }

end Draft

-- The diagram of a text; its first meaningful line is the header.
def Diagram.ofText (text : String) : Diagram :=
  ((Text.bodyLines text).foldl Draft.addLine {}).diagram

end LayeredDiagram.ArchiMate
