import LayeredDiagram.CommandLine.Flag
import LayeredDiagram.Text.Integer
import LayeredDiagram.Text.Printable
/-!
Reading the arguments of the command line. Long options may be shortened as long as they stay unique and may
carry a value after an equals sign; short options may be joined, the last one with its value. After `--`
everything is a value, and `--` attached to an option is no value at all. Values other than those of options
name the file; only one is expected.
-/

namespace LayeredDiagram.CommandLine

inductive UsageError where
  | unrecognized (arguments : List String)
  | missingValue (f : Flag)
  | notInteger (f : Flag) (text : String)
  -- A value is attached to an option that takes none.
  | ignoredValue (f : Flag) (text : String)
  | ambiguous (argument : String) (candidates : List String)
  deriving DecidableEq

namespace UsageError

def message : UsageError → String
  | unrecognized arguments => "unrecognized arguments: " ++ " ".intercalate arguments
  | missingValue f => s!"argument {f.name}: expected one argument"
  | notInteger f text => s!"argument {f.name}: invalid int value: {Text.quoted text}"
  | ignoredValue f text => s!"argument {f.name}: ignored explicit argument {Text.quoted text}"
  | ambiguous argument candidates =>
    s!"ambiguous option: {argument} could match " ++ ", ".intercalate candidates

end UsageError

-- What a command line asks for.
structure Arguments where
  file : Option String := none
  isVerbose : Bool := false
  wantsSvg : Bool := false
  wantsPng : Bool := false
  output : Option String := none
  isAsciiOnly : Bool := false
  -- The gaps between boxes and between ranks; a gap may be asked for without a number.
  paddingX : Option (Option Int) := none
  paddingY : Option (Option Int) := none
  theme : Option String := none
  bg : Option String := none
  fg : Option String := none
  isTransparent : Bool := false
  listsThemes : Bool := false
  deriving DecidableEq

-- Why reading stops before the end.
inductive Stop where
  | usage (e : UsageError)
  | help
  | version

inductive Word where
  | value (text : String)
  | separator
  -- Something may be attached to an option, directly or after an equals sign.
  | option (f : Flag) (isShort : Bool) (attached : Option (List Char))
  -- Something that looks like an option and is none.
  | unknown (text : String)

section Words

-- Whether a text is a negative number. A line end may follow it.
def isNegativeNumber : List Char → Bool
  | '-' :: rest =>
    let digits := if rest.getLast? = some '\n' then rest.dropLast else rest
    let whole := digits.takeWhile fun c => (Text.decimal? c).isSome
    match digits.drop whole.length with
    | [] => !whole.isEmpty
    | '.' :: fraction => !fraction.isEmpty && fraction.all fun c => (Text.decimal? c).isSome
    | _ => false
  | _ => false

-- What follows the first equals sign, if there is one.
def afterEquals? (s : List Char) : Option (List Char) :=
  match s.dropWhile (· ≠ '=') with
  | _ :: text => some text
  | [] => none

def isLong (s : String) : Bool :=
  "--".toList.isPrefixOf s.toList

-- The options that an argument which is no full spelling may mean.
def meanings (s : List Char) : List (String × Option (List Char)) :=
  match s with
  | '-' :: '-' :: _ =>
    (Flag.startingWith (s.takeWhile (· ≠ '='))).map fun (spelling, _) => (spelling, afterEquals? s)
  | '-' :: c :: rest =>
    let short := String.ofList ['-', c]
    if (Flag.ofSpelling? short).isSome then [(short, some rest)] else []
  | _ => []

def optionWord (s spelling : String) (attached : Option (List Char)) : Word :=
  match Flag.ofSpelling? spelling with
  | some f => .option f (!isLong spelling) attached
  | none => .unknown s

-- The role of an argument in front of the separator.
def classify (s : String) : Except UsageError Word :=
  let chars := s.toList
  if s = "--" then .ok .separator
  else if chars.head? ≠ some '-' then .ok (.value s)
  else if (Flag.ofSpelling? s).isSome then .ok (optionWord s s none)
  else if s = "-" then .ok (.value s)
  else
    let stem := String.ofList (chars.takeWhile (· ≠ '='))
    if stem ≠ s ∧ (Flag.ofSpelling? stem).isSome then .ok (optionWord s stem (afterEquals? chars))
    else
      match meanings chars with
      | [(spelling, attached)] => .ok (optionWord s spelling attached)
      | [] =>
        if isNegativeNumber chars || chars.contains ' ' then .ok (.value s) else .ok (.unknown s)
      | all => .error (.ambiguous s (all.map (·.1)))

def wordsOf : List String → Except UsageError (List Word)
  | [] => .ok []
  | s :: rest =>
    match classify s with
    | .error e => .error e
    | .ok .separator => .ok (.separator :: rest.map .value)
    | .ok w => (wordsOf rest).map (w :: ·)

end Words

section Options

-- An option with its value, if it takes one.
abbrev Setting := Flag × Option String

-- What an argument with joined short options says.
structure Joined where
  settings : List Setting := []
  -- The last option, if its value is the next argument.
  awaiting : Option Flag := none

-- An option without anything attached.
def joinLast (f : Flag) : Joined :=
  if f.takesValue then { awaiting := some f } else { settings := [(f, none)] }

-- Puts an option without value in front.
def Joined.cons (f : Flag) (j : Joined) : Joined :=
  { j with settings := (f, none) :: j.settings }

-- The value that an attached text stands for.
def attachedValue? (text : String) : Option String :=
  if text = "--" then none else some text

-- Reads what is attached to an option: its value, or the letters of further short options.
def join (f : Flag) (isShort : Bool) : List Char → Except UsageError Joined
  | [] =>
    if f.takesValue then .ok { settings := [(f, some "")] } else .error (.ignoredValue f "")
  | c :: rest =>
    let text := String.ofList (c :: rest)
    if f.takesValue then .ok { settings := [(f, attachedValue? text)] }
    else if !isShort then .error (.ignoredValue f text)
    else
      match Flag.ofSpelling? (String.ofList ['-', c]), rest with
      | none, _ => .error (.ignoredValue f text)
      | some g, [] => .ok ((joinLast g).cons f)
      | some g, d :: more => (join g true (d :: more)).map (·.cons f)

def joined (f : Flag) (isShort : Bool) (attached : Option (List Char)) : Except UsageError Joined :=
  match attached with
  | some text => join f isShort text
  | none => .ok (joinLast f)

-- The most digits that a number may have.
def digitLimit : Nat := 4300

-- The integer in the value of an option, if the option has one.
def integerOf (f : Flag) : Option String → Except Stop (Option Int)
  | none => .ok none
  | some text =>
    let digits := text.toList.filter fun c => (Text.decimal? c).isSome
    match Text.integer? 10 text.toList with
    | some n => if digits.length ≤ digitLimit then .ok (some n) else .error (.usage (.notInteger f text))
    | none => .error (.usage (.notInteger f text))

-- Carries out one option. Help and version stop the reading.
def Arguments.apply (a : Arguments) : Setting → Except Stop Arguments
  | (.help, _) => .error .help
  | (.version, _) => .error .version
  | (.verbose, _) => .ok { a with isVerbose := true }
  | (.svg, _) => .ok { a with wantsSvg := true }
  | (.png, _) => .ok { a with wantsPng := true }
  | (.output, v) => .ok { a with output := v }
  | (.asciiOnly, _) => .ok { a with isAsciiOnly := true }
  | (.paddingX, v) => (integerOf .paddingX v).map fun n => { a with paddingX := some n }
  | (.paddingY, v) => (integerOf .paddingY v).map fun n => { a with paddingY := some n }
  | (.theme, v) => .ok { a with theme := v }
  | (.bg, v) => .ok { a with bg := v }
  | (.fg, v) => .ok { a with fg := v }
  | (.transparent, _) => .ok { a with isTransparent := true }
  | (.themes, _) => .ok { a with listsThemes := true }

end Options

structure Progress where
  arguments : Arguments := {}
  -- Arguments that nothing was made of.
  extra : List String := []
  -- An option whose value comes next, and those that are carried out together with it.
  awaiting : Option (List Setting × Flag) := none
  -- Whether the last word was taken as the file.
  hasJustFile : Bool := false

namespace Progress

def addExtra (p : Progress) (s : String) : Progress :=
  { p with extra := p.extra ++ [s], hasJustFile := false }

def addAll (p : Progress) (settings : List Setting) : Except Stop Progress :=
  (settings.foldlM Arguments.apply p.arguments).map fun a =>
    { p with arguments := a, awaiting := none, hasJustFile := false }

-- Takes a value as the file, unless there is one already.
def addValue (p : Progress) (s : String) : Progress :=
  if p.arguments.file.isSome then p.addExtra s
  else { p with arguments := { p.arguments with file := some s }, hasJustFile := true }

-- Carries out what an option argument says, or waits for the value of its last option.
def addJoined (p : Progress) (j : Joined) : Except Stop Progress :=
  match j.awaiting with
  | some f => .ok { p with awaiting := some (j.settings, f), hasJustFile := false }
  | none => p.addAll j.settings

-- Reads one word. The separator is dropped next to the file, and in front of it.
def step (p : Progress) (w : Word) : Except Stop Progress :=
  match p.awaiting, w with
  | some (settings, f), .value s => p.addAll (settings ++ [(f, some s)])
  | some (_, f), _ => .error (.usage (.missingValue f))
  | none, .value s => .ok (p.addValue s)
  | none, .separator =>
    .ok (if p.arguments.file.isNone || p.hasJustFile then p else p.addExtra "--")
  | none, .unknown s => .ok (p.addExtra s)
  | none, .option f isShort attached =>
    match joined f isShort attached with
    | .error e => .error (.usage e)
    | .ok j => p.addJoined j

-- The arguments, once all words are read.
def finish (p : Progress) : Except Stop Arguments :=
  match p.awaiting with
  | some (_, f) => .error (.usage (.missingValue f))
  | none => if p.extra.isEmpty then .ok p.arguments else .error (.usage (.unrecognized p.extra))

end Progress

namespace Arguments

-- The meaning of a command line.
def ofList (argv : List String) : Except Stop Arguments :=
  match wordsOf argv with
  | .error e => .error (.usage e)
  | .ok words => words.foldlM Progress.step {} >>= Progress.finish

end Arguments

end LayeredDiagram.CommandLine
