import LayeredDiagram.Family.Notice
import LayeredDiagram.Text.Blank
/-!
Class diagrams: classes with attributes and methods, namespaces, and relationships.
-/

namespace LayeredDiagram.ClassDiagram

structure Member where
  name : String
  type : Option String := none
  -- One of the marks `+`, `-`, `#` and `~`, or nothing.
  visibility : String := ""
  isMethod : Bool := false
  isStatic : Bool := false
  isAbstract : Bool := false
  deriving DecidableEq

-- The member as it is written in a box.
def Member.displayText (m : Member) : String :=
  let marked := if m.visibility.isEmpty then m.name else s!"{m.visibility} {m.name}"
  match m.type.filter (· ≠ "") with
  | some t => s!"{marked}: {t}"
  | none => marked

structure Class where
  id : String
  label : String
  -- A word in double angle brackets above the name.
  stereotype : Option String := none
  attributes : List Member := []
  methods : List Member := []
  namespaceName : Option String := none
  deriving DecidableEq

def Class.addMember (c : Class) (m : Member) : Class :=
  if m.isMethod then { c with methods := c.methods ++ [m] }
  else { c with attributes := c.attributes ++ [m] }

-- The end of a relationship that carries its marker.
inductive End where
  | source
  | target
  deriving DecidableEq

structure Relationship where
  source : String
  target : String
  type : String
  markerAt : End := .target
  label : Option String := none
  sourceCardinality : Option String := none
  targetCardinality : Option String := none
  deriving DecidableEq

structure Namespace where
  name : String
  classIds : List String := []
  deriving DecidableEq

structure Diagram where
  classes : List Class := []
  relationships : List Relationship := []
  namespaces : List Namespace := []
  -- Lines without meaning.
  skipped : List String := []

-- Replaces each pair of tildes by angle brackets.
def angleBrackets : List Char → List Char
  | [] => []
  | c :: rest =>
    if c = '~' then
      if rest.contains '~' then '<' :: closing rest else c :: rest
    else c :: angleBrackets rest
where
  -- The text up to the second tilde of a pair and on.
  closing : List Char → List Char
    | [] => []
    | c :: rest => if c = '~' then '>' :: angleBrackets rest else c :: closing rest

-- The id and the label of a class name: `Box~T~` has the id `Box` and the label `Box<T>`.
def splitGeneric (name : List Char) : List Char × List Char :=
  (name.takeWhile (· ≠ '~'), angleBrackets name)

namespace Diagram

def class? (d : Diagram) (id : String) : Option Class :=
  d.classes.find? (·.id == id)

def modify (d : Diagram) (id : String) (f : Class → Class) : Diagram :=
  { d with classes := d.classes.map fun c => if c.id == id then f c else c }

-- Makes sure that a namespace exists.
def addNamespace (d : Diagram) (name : String) : Diagram :=
  if d.namespaces.any (·.name == name) then d
  else { d with namespaces := d.namespaces ++ [{ name }] }

-- Makes sure that a class exists; a generic name renames one that does.
def declare (d : Diagram) (id label : String) : Diagram :=
  match d.class? id with
  | none => { d with classes := d.classes ++ [{ id, label }] }
  | some _ => if label ≠ id then d.modify id fun c => { c with label } else d

-- Puts a class into a namespace unless it is in one already.
def enter (d : Diagram) (id name : String) : Diagram :=
  match d.class? id with
  | some ⟨_, _, _, _, _, none⟩ =>
    let d := d.modify id fun c => { c with namespaceName := some name }
    { d with namespaces := d.namespaces.map fun n =>
        if n.name == name then { n with classIds := n.classIds ++ [id] } else n }
  | _ => d

-- Declares the class of a written name, in a namespace if one is open.
def ensureClass (d : Diagram) (name : List Char) (inside : Option String) : Diagram × String :=
  let (id, label) := splitGeneric name
  let d := d.declare (String.ofList id) (String.ofList label)
  match inside with
  | some n => (d.enter (String.ofList id) n, String.ofList id)
  | none => (d, String.ofList id)

-- Remarks on the lines without meaning.
def notices (d : Diagram) : List Notice :=
  d.skipped.map .skippedLine

end Diagram

end LayeredDiagram.ClassDiagram
