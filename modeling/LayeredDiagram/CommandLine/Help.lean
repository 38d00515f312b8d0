import LayeredDiagram.Theme.Named
import LayeredDiagram.Trace.Basic
/-!
Fixed texts of the command line.
-/

namespace LayeredDiagram.CommandLine

def versionText : String := "0.1.0\n"

def helpLines : List String := [
  "usage: archlayout [-h] [-v] [--verbose] [-s] [--png] [-o OUTPUT]",
  "                  [--ascii-only] [--padding-x PADDING_X]",
  "                  [--padding-y PADDING_Y] [-t THEME] [--bg BG] [--fg FG]",
  "                  [--transparent] [--themes]",
  "                  [file]",
  "",
  "Render C4, ArchiMate and class diagrams to text art or SVG.",
  "",
  "positional arguments:",
  "  file                  Input file (reads stdin if omitted)",
  "",
  "options:",
  "  -h, --help            show this help message and exit",
  "  -v, --version         show program's version number and exit",
  "  --verbose             Log pipeline progress to stderr",
  "",
  "output options:",
  "  -s, --svg             Output SVG instead of text art",
  "  --png                 Rasterise the text art to PNG (needs -o)",
  "  -o OUTPUT, --output OUTPUT",
  "                        Write output to a file instead of stdout",
  "",
  "text art options:",
  "  --ascii-only          Use +, -, | instead of Unicode box drawing",
  "  --padding-x PADDING_X",
  "                        Horizontal gap between boxes (default: 5)",
  "  --padding-y PADDING_Y",
  "                        Vertical gap between ranks (default: 3)",
  "",
  "SVG options:",
  "  -t THEME, --theme THEME",
  "                        Built-in theme name",
  "  --bg BG               Background colour (hex, e.g. #1a1b26)",
  "  --fg FG               Foreground colour (hex, e.g. #a9b1d6)",
  "  --transparent         Render with a transparent background",
  "  --themes              List available themes",
  "",
  "examples:",
  "  archlayout diagram.txt                      render a file as text art",
  "  cat diagram.txt | archlayout                render piped input",
  "  archlayout --svg -o out.svg diagram.txt     render to an SVG file",
  "  archlayout -t tokyo-night --svg diagram.txt render with a theme",
  "  archlayout --png -o out.png diagram.txt     rasterise the text art",
  "  archlayout --themes                         list available themes"]

-- Lines, each with a line end.
def lines (all : List String) : String :=
  String.join (all.map (· ++ "\n"))

def helpText : String :=
  lines helpLines

-- The colour of a palette as text; colours that are no texts are left out.
def colorText : Value → String
  | .text s => s
  | _ => ""

-- The named palettes with their main colours.
def themesText : String :=
  let entry (named : String × Palette) : String :=
    "  " ++ Trace.padRight 20 named.1 ++ " bg: " ++ colorText named.2.bg
      ++ "  fg: " ++ colorText named.2.fg
  lines <|
    ["Available themes:", ""] ++ Palette.named.map entry
    ++ ["", "Usage: archlayout --theme <name> --svg diagram.txt"]

end LayeredDiagram.CommandLine
