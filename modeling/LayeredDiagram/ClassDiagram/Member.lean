import LayeredDiagram.ClassDiagram.Model
import LayeredDiagram.Text.Scan
/-!
Reading members of classes. A mark in front gives the visibility; a trailing `$` makes a member static
and a trailing `*` abstract. Methods are written `name(arguments) type`, attributes `type name` or
`name: type`.
-/

namespace LayeredDiagram.ClassDiagram.Member

open LayeredDiagram.Text

def visibilityMarks : List Char :=
  ['+', '-', '#', '~']

-- The visibility mark of a member, and the rest of its text.
def splitVisibility : List Char → String × List Char
  | c :: rest =>
    if visibilityMarks.contains c && !rest.isEmpty then (c.toString, trim rest) else ("", c :: rest)
  | [] => ("", [])

-- Which of the two classifier marks a text carries.
structure Classifier where
  isStatic : Bool := false
  isAbstract : Bool := false

def Classifier.add (k : Classifier) (c : Char) : Classifier :=
  { isStatic := k.isStatic || c == '$', isAbstract := k.isAbstract || c == '*' }

def isClassifier (c : Char) : Bool :=
  c == '$' || c == '*'

-- Takes classifiers off the start of a text, with the blanks that follow. The flag says that a
-- classifier has just been taken.
def leading (k : Classifier) : Bool → List Char → Classifier × List Char
  | _, [] => (k, [])
  | afterMark, c :: rest =>
    if isClassifier c then leading (k.add c) true rest
    else if afterMark && isBlank c then leading k true rest
    else (k, c :: rest)

-- Takes classifiers off the end of a text, with the blanks in front of them.
def trailing (s : List Char) : Classifier × List Char :=
  let (k, rest) := leading {} false s.reverse
  (k, rest.reverse)

-- A method: the name up to the first closing parenthesis, then classifiers and the type.
def method (visibility : String) (k : Classifier) (s : List Char) : Member :=
  let name := s.takeWhile (· ≠ ')') ++ [')']
  let (k, rest) := leading k false (trim ((s.dropWhile (· ≠ ')')).drop 1))
  { name := String.ofList (trim name)
    type := if rest.isEmpty then none else some (String.ofList rest)
    visibility, isMethod := true, isStatic := k.isStatic, isAbstract := k.isAbstract }

-- The name and the type of an attribute; the type may be empty.
def nameAndType (s : List Char) : List Char × List Char :=
  if s.contains ':' then
    (trim (s.takeWhile (· ≠ ':')), trim ((s.dropWhile (· ≠ ':')).drop 1))
  else
    match words s with
    | type :: first :: more => (join [' '] (first :: more), type)
    | _ => (s, [])

def field (visibility : String) (k : Classifier) (s : List Char) : Member :=
  let (name, type) := nameAndType s
  { name := String.ofList name
    type := if type.isEmpty then none else some (String.ofList type)
    visibility, isStatic := k.isStatic, isAbstract := k.isAbstract }

def ofText (text : List Char) : Member :=
  let (visibility, rest) := splitVisibility (angleBrackets (trim text))
  let (k, s) := trailing rest
  if s.contains '(' && s.contains ')' then method visibility k s else field visibility k s

end LayeredDiagram.ClassDiagram.Member
