import LayeredDiagram.Data.Value
import LayeredDiagram.Text.Blank
import LayeredDiagram.Text.Width
/-!
Images of text art: every character is drawn in a grid cell of its own, and wide characters take two.
-/

namespace LayeredDiagram.Raster

-- The extents of a letter.
structure Extent where
  left : Int
  top : Int
  right : Int
  bottom : Int

-- The fonts of a machine, and the extents of the letter `M` in a size.
structure FontLibrary where
  names : List String
  extent : Int → Extent

-- A font in a size; without a name it is the built-in one.
structure Font where
  name : Option String
  size : Int
  deriving DecidableEq

structure Options where
  fontSize : Int := 16
  -- Colours as they were given.
  background : Value := .text "#FFFFFF"
  foreground : Value := .text "#000000"
  padding : Int := 20
  font : Option String := none
  scale : Int := 2

-- A character with the corner of its cell.
structure Mark where
  x : Int
  y : Int
  char : Char
  color : Value

structure Image where
  width : Int
  height : Int
  background : Value
  marks : List Mark
  font : Font
  -- The fonts looked for.
  tried : List String

def commonFonts : List String := [
  "DejaVuSansMono", "DejaVu Sans Mono", "/usr/share/fonts/truetype/dejavu/DejaVuSansMono.ttf",
  "Menlo", "Monaco", "/System/Library/Fonts/Menlo.ttc",
  "Consolas", "Cascadia Code", "C:/Windows/Fonts/consola.ttf"]

def candidates (wanted : Option String) : List String :=
  (wanted.filter (· ≠ "")).toList ++ commonFonts

namespace FontLibrary

def find? (l : FontLibrary) (wanted : Option String) : Option String :=
  (candidates wanted).find? l.names.contains

-- The candidates up to the first that the library has.
def tried (l : FontLibrary) (wanted : Option String) : List String :=
  let missing := (candidates wanted).takeWhile fun n => !l.names.contains n
  missing ++ (l.find? wanted).toList

-- The distance between lines: a fifth more than the height of a letter.
def lineHeight (l : FontLibrary) (size : Int) : Quantity :=
  let e := l.extent size
  .whole (e.bottom - e.top) * 1.2

-- Width and height of a grid cell.
def cellSize (l : FontLibrary) (size : Int) : Int × Int :=
  let e := l.extent size
  (max 1 (e.right - e.left), max 1 (Scalar.floor (l.lineHeight size)))

end FontLibrary

-- Least width and height of an image before scaling.
def leastSize : Int := 100

-- The characters of a line with their columns; the column of the first one comes first.
def columns : Nat → List Char → List (Nat × Char)
  | _, [] => []
  | column, c :: rest => (column, c) :: columns (column + Text.columns c) rest

-- The marks of a line; blanks leave none.
def lineMarks (border y cellWidth : Int) (color : Value) (line : List Char) : List Mark :=
  ((columns 0 line).filter (·.2 ≠ ' ')).map fun (column, c) =>
    { x := border + (column : Int) * cellWidth, y, char := c, color }

-- The size of the letters in an image.
def Options.letterSize (o : Options) : Int :=
  o.fontSize * o.scale

-- What keeps a text from being drawn in a grid of whole pixels.
def fault? (l : FontLibrary) (o : Options) : Option NumberFault :=
  (l.lineHeight o.letterSize).roundingFault?

def image (l : FontLibrary) (defaultFont : Option String) (o : Options) (art : String) : Image :=
  let lines := Text.splitOn '\n' art.toList
  let wanted := (o.font.filter (· ≠ "")).or defaultFont
  let size := o.letterSize
  let (cellWidth, cellHeight) := l.cellSize size
  let border := o.padding * o.scale
  let widest : Nat := (lines.map fun s => Text.displayWidth (String.ofList s)).foldl max 0
  let least := leastSize * o.scale
  { width := max (cellWidth * widest + 2 * border) least
    height := max (cellHeight * lines.length + 2 * border) least
    background := o.background
    marks := lines.zipIdx.flatMap fun (line, row) =>
      lineMarks border (border + (row : Int) * cellHeight) cellWidth o.foreground line
    font := ⟨l.find? wanted, size⟩
    tried := l.tried wanted }

end LayeredDiagram.Raster
