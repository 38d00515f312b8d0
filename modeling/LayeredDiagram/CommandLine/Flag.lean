/-!
The options of the command line and their spellings.
-/

namespace LayeredDiagram.CommandLine

inductive Flag where
  | help
  | version
  | verbose
  | svg
  | png
  | output
  | asciiOnly
  | paddingX
  | paddingY
  | theme
  | bg
  | fg
  | transparent
  | themes
  deriving DecidableEq

namespace Flag

-- All spellings in the order in which they are listed.
def spellings : List (String × Flag) := [
  ("-h", help), ("--help", help), ("-v", version), ("--version", version), ("--verbose", verbose),
  ("-s", svg), ("--svg", svg), ("--png", png), ("-o", output), ("--output", output),
  ("--ascii-only", asciiOnly), ("--padding-x", paddingX), ("--padding-y", paddingY),
  ("-t", theme), ("--theme", theme), ("--bg", bg), ("--fg", fg), ("--transparent", transparent),
  ("--themes", themes)]

def ofSpelling? (s : String) : Option Flag :=
  spellings.lookup s

-- All spellings of a flag, as messages name it.
def name (f : Flag) : String :=
  "/".intercalate ((spellings.filter (·.2 = f)).map (·.1))

def takesValue : Flag → Bool
  | output | paddingX | paddingY | theme | bg | fg => true
  | _ => false

def startingWith (s : List Char) : List (String × Flag) :=
  spellings.filter fun (spelling, _) => s.isPrefixOf spelling.toList

end Flag

end LayeredDiagram.CommandLine
