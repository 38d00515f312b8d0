import LayeredDiagram.CommandLine.Arguments
import LayeredDiagram.CommandLine.Files
import LayeredDiagram.CommandLine.Help
import LayeredDiagram.Raster.Image
import LayeredDiagram.Render.Picture
import LayeredDiagram.Text.LineEnd
import LayeredDiagram.Text.Utf8
/-!
The command line: reads a diagram text from a file or from the standard input, and writes its picture to
the standard output or to a file.
-/

namespace LayeredDiagram.CommandLine

inductive Ending where
  | exit (code : Nat)
  -- Help or the version was asked for.
  | shown
  | fileFailed (e : FileError)
  | notText (e : Text.Utf8Error)
  | numberFailed (f : NumberFault)

-- What a run has written so far, and how it ends.
structure Outcome where
  stdout : String := ""
  stderr : String := ""
  ending : Ending := .exit 0

-- What surrounds a run.
structure Surroundings (m : Type → Type) where
  -- Whether somebody types the input.
  isTerminal : Bool
  stdin : m String
  read : Path → m (Except FileError (List UInt8))
  write : Path → String → m (Except FileError Unit)
  saveImage : Path → Raster.Image → m (Except FileError Unit)
  fonts : Raster.FontLibrary

-- What is to be done with a finished picture.
inductive Product where
  | print (text : String)
  | save (output text : String)
  | saveImage (output : String) (image : Raster.Image)

namespace Outcome

def failed (message : String) (code : Nat) : Outcome :=
  { stderr := lines ["Error: " ++ message], ending := .exit code }

-- A failure with advice on what to run.
def advised (message option reason : String) : Outcome :=
  { stderr := lines ["Error: " ++ message, "Run \"archlayout " ++ option ++ "\" " ++ reason]
    ending := .exit 1 }

end Outcome

-- The outcome of a command line that is not carried out.
def Stop.outcome : Stop → Outcome
  | .usage e => .advised e.message "--help" "for usage information"
  | .help => { stdout := helpText, ending := .shown }
  | .version => { stdout := versionText, ending := .shown }

def logLine (severity source message : String) : String :=
  severity ++ " " ++ source ++ ": " ++ message

-- What is shown of an event: everything if that is wanted, and otherwise the texts of warnings.
def shownEvent? (isVerbose : Bool) (e : Event) : Option String :=
  let severity := match e.severity with
    | .debug => "DEBUG"
    | .warning => "WARNING"
  if isVerbose then some (logLine severity e.source e.message)
  else if e.severity = .warning then some e.message else none

def shownEvents (isVerbose : Bool) (es : List Event) : String :=
  lines (es.filterMap (shownEvent? isVerbose))

namespace Arguments

-- A text that is given and not empty.
def given (s : Option String) : Option String :=
  s.filter (· ≠ "")

-- The gap that an option asks for. Without a number there is none to compute with.
def gap : Option Int → Quantity
  | some n => .whole n
  | none => .faulty .listForNumber

def artOptions (a : Arguments) : ArtOptions :=
  { usesAscii := some a.isAsciiOnly, paddingX := a.paddingX.map gap, paddingY := a.paddingY.map gap }

def rasterOptions (p : Palette) : Raster.Options :=
  { background := p.bg, foreground := p.fg }

-- The picture asked for, in the colours of a palette.
def picture (a : Arguments) (p : Palette) (input : String) : Run :=
  let s : Settings := {}
  if a.wantsSvg then s.svg { palette := p, isTransparent := a.isTransparent } false input
  else s.textArt a.artOptions false input

def product (a : Arguments) (fonts : Raster.FontLibrary) (p : Palette) (text : String) : Product :=
  match given a.output with
  | none => .print (if text.toList.getLast? = some '\n' then text else text ++ "\n")
  | some output =>
    if a.wantsPng && !a.wantsSvg then
      .saveImage output (Raster.image fonts none (rasterOptions p) text)
    else .save output text

end Arguments

section Run

variable {m : Type → Type} [Monad m]

def saved (a : Arguments) (output log : String) (r : Except FileError Unit) : Outcome :=
  match r with
  | .error e => { stderr := log, ending := .fileFailed e }
  | .ok () =>
    let note := logLine "INFO" "archlayout.cli" ("Wrote " ++ output)
    { stderr := log ++ if a.isVerbose then lines [note] else "" }

def deliver (s : Surroundings m) (a : Arguments) (log : String) : Product → m Outcome
  | .print text => return { stdout := text, stderr := log }
  | .save output text => return saved a output log (← s.write (.ofText output) text)
  | .saveImage output image => return saved a output log (← s.saveImage (.ofText output) image)

-- Turns a text into a picture and delivers it.
def render (s : Surroundings m) (a : Arguments) (input : String) : m Outcome :=
  if (Text.trim input.toList).isEmpty then return .failed "Empty input" 1
  else
    match Palette.adapted (.ofOption a.theme) (.ofOption a.bg) (.ofOption a.fg) with
    | .error e => return .advised e.message "--themes" "to see available themes"
    | .ok palette =>
      let run := a.picture palette input
      let log := shownEvents a.isVerbose run.events
      match run.result with
      | .error (.layout (.number f)) => return { stderr := log, ending := .numberFailed f }
      | .error e => return { stderr := log ++ lines ["Error: " ++ e.message], ending := .exit 2 }
      | .ok text => deliver s a log (a.product s.fonts palette text)

-- The text of a file, with unified line ends.
def fileText (path : Path) (r : Except FileError (List UInt8)) (name : String) : Except Outcome String :=
  match r with
  | .error (.isDirectory _) => .error { ending := .fileFailed (.isDirectory path) }
  | .error (.nameTooLong _) => .error { ending := .fileFailed (.nameTooLong path) }
  | .error _ => .error (.failed ("File not found: " ++ name) 3)
  | .ok bytes =>
    match Text.Utf8.decode bytes with
    | .error e => .error { ending := .notText e }
    | .ok text => .ok (String.ofList (Text.unifyLineEnds text.toList))

-- Carries out a command line.
def carryOut (s : Surroundings m) (a : Arguments) : m Outcome :=
  if a.listsThemes then return { stdout := themesText }
  else if a.wantsPng ∧ (Arguments.given a.output).isNone then
    return .failed "--png requires --output" 1
  else
    match Arguments.given a.file with
    | some name => do
      let path := Path.ofText name
      match fileText path (← s.read path) name with
      | .error outcome => return outcome
      | .ok text => render s a text
    | none =>
      if s.isTerminal then return { stderr := helpText, ending := .exit 1 }
      else do render s a (← s.stdin)

-- Reads a command line and carries it out.
def run (s : Surroundings m) (argv : List String) : m Outcome :=
  match Arguments.ofList argv with
  | .error stop => return stop.outcome
  | .ok a => carryOut s a

end Run

end LayeredDiagram.CommandLine
