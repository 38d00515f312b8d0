import LayeredDiagram.ArchiMate.Reading
import LayeredDiagram.ArchiMate.Size
import LayeredDiagram.C4.Reading
import LayeredDiagram.C4.Size
import LayeredDiagram.ClassDiagram.Reading
import LayeredDiagram.ClassDiagram.Size
import LayeredDiagram.Layout.Graph
/-!
Diagrams of any family. The first meaningful line of a text names the family.
-/

namespace LayeredDiagram

inductive Family where
  | c4
  | archimate
  | classDiagram
  deriving DecidableEq

inductive ParseError where
  | emptyInput
  | unsupportedHeader (header : String)
  deriving DecidableEq

namespace ParseError

def message : ParseError → String
  | emptyInput => "Empty diagram input"
  | unsupportedHeader header => s!"Line 1: Unsupported diagram type: {header}"

end ParseError

namespace Family

def all : List Family :=
  [c4, archimate, classDiagram]

def name : Family → String
  | c4 => "c4"
  | archimate => "archimate"
  | classDiagram => "class"

-- How the header line of a family starts.
def headerStart : Family → String
  | c4 => "C4"
  | archimate => "archimate"
  | classDiagram => "classDiagram"

def ofName? (s : String) : Option Family :=
  all.find? (·.name == s)

-- The family that the header line of a text names.
def detect (text : String) : Except ParseError Family :=
  match Text.meaningfulLines text with
  | [] => .error .emptyInput
  | header :: _ =>
    match all.find? fun f => f.headerStart.toList.isPrefixOf header with
    | some f => .ok f
    | none => .error (.unsupportedHeader (String.ofList header))

end Family

inductive Diagram where
  | c4 (d : C4.Diagram)
  | archimate (d : ArchiMate.Diagram)
  | classDiagram (d : ClassDiagram.Diagram)

structure Config (α : Type) where
  c4 : C4.Config α
  archimate : ArchiMate.Config α
  classDiagram : ClassDiagram.Config α

variable {α : Type} [Scalar α]

def Config.standard : Config α :=
  ⟨C4.Config.standard, ArchiMate.Config.standard, ClassDiagram.Config.standard⟩

namespace Diagram

def family : Diagram → Family
  | c4 _ => .c4
  | archimate _ => .archimate
  | classDiagram _ => .classDiagram

-- The diagram of a text in a given family, whatever its header.
def ofTextIn (f : Family) (text : String) : Diagram :=
  match f with
  | .c4 => c4 (C4.Diagram.ofText text)
  | .archimate => archimate (ArchiMate.Diagram.ofText text)
  | .classDiagram => classDiagram (ClassDiagram.Diagram.ofText text)

-- The diagram of a text in the family that its header names.
def ofText (text : String) : Except ParseError Diagram :=
  (Family.detect text).map fun f => ofTextIn f text

-- Remarks made while a text is read.
def readingNotices : Diagram → List Notice
  | classDiagram d => d.notices
  | _ => []

-- Remarks made while a diagram is sized.
def sizingNotices : Diagram → List Notice
  | c4 d => d.notices
  | archimate d => d.notices
  | classDiagram _ => []

def toGraph (c : Config α) : Diagram → SizedGraph α
  | .c4 d => d.toGraph c.c4
  | .archimate d => d.toGraph c.archimate
  | .classDiagram d => d.toGraph c.classDiagram

def layout (c : Config α) (sweeps : Nat) (d : Diagram) : Except LayoutError (PlacedGraph α) :=
  (d.toGraph c).layout sweeps

end Diagram

end LayeredDiagram
