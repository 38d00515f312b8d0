import LayeredDiagram.Graph.Geometry
import LayeredDiagram.Numeric.Quantity
/-!
SVG documents as trees, and their text.
-/

namespace LayeredDiagram.Svg

-- The name of an attribute and its value, which is written as it is.
abbrev Attribute := String × String

inductive Element where
  | shape (tag : String) (attributes : List Attribute)
  | text (attributes : List Attribute) (content : String)
  -- Several lines of text, each with attributes of its own.
  | paragraph (attributes : List Attribute) (lines : List (List Attribute × String))
  | group (attributes : List Attribute) (children : List Element)
  deriving Inhabited

structure Document where
  width : Quantity
  height : Quantity
  elements : List Element

-- A character of a text; markup characters are escaped.
def escape (c : Char) : List Char :=
  if c = '&' then "&amp;".toList
  else if c = '<' then "&lt;".toList
  else if c = '>' then "&gt;".toList
  else [c]

def escapeText (s : String) : String :=
  String.ofList (s.toList.flatMap escape)

def Attribute.write (a : Attribute) : String :=
  " " ++ a.1 ++ "=\"" ++ a.2 ++ "\""

def writeAttributes (attributes : List Attribute) : String :=
  String.join (attributes.map Attribute.write)

namespace Element

-- A tag with a text inside.
def writeText (tag : String) (attributes : List Attribute) (content : String) : String :=
  "<" ++ tag ++ writeAttributes attributes ++ ">" ++ content ++ "</" ++ tag ++ ">"

mutual

-- The text of an element. The children of a group stand on lines of their own.
def write : Element → String
  | shape tag attributes => "<" ++ tag ++ writeAttributes attributes ++ " />"
  | text attributes content => writeText "text" attributes (escapeText content)
  | paragraph attributes lines =>
    writeText "text" attributes
      (String.join (lines.map fun (own, line) => writeText "tspan" own (escapeText line)))
  | group attributes children =>
    let opening := "<g" ++ writeAttributes attributes ++ ">"
    match children with
    | [] => opening ++ "</g>"
    | _ => opening ++ "\n" ++ writeLines children ++ "</g>"

-- Elements one after the other, each followed by a line end.
def writeLines : List Element → String
  | [] => ""
  | e :: rest => write e ++ "\n" ++ writeLines rest

end

end Element

namespace Document

def vocabulary (path : String) : String :=
  "http:" ++ "//www.w3.org/" ++ path

-- The opening tag, with the size of the picture.
def opening (d : Document) : String :=
  let width := d.width.text
  let height := d.height.text
  "<svg" ++ Attribute.write ("xmlns", vocabulary "2000/svg")
    ++ Attribute.write ("xmlns:xlink", vocabulary "1999/xlink") ++ "\n    "
    ++ Attribute.write ("width", width) ++ Attribute.write ("height", height)
    ++ Attribute.write ("viewBox", "0 0 " ++ width ++ " " ++ height) ++ ">"

def write (d : Document) : String :=
  "<?xml version=\"1.0\" encoding=\"UTF-8\"?>\n" ++ d.opening ++ "\n<defs>\n</defs>\n"
    ++ Element.writeLines d.elements ++ "</svg>"

end Document

end LayeredDiagram.Svg
