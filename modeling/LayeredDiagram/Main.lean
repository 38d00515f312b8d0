import LayeredDiagram.CommandLine.Run
/-!
The program: the command line on real files and streams. It draws no pixels, so images cannot be saved.
-/

open LayeredDiagram LayeredDiagram.CommandLine

-- The reason why a file cannot be used.
def fileError (p : Path) : IO.Error → FileError
  | .noFileOrDirectory .. => .notFound p
  | .inappropriateType .. | .resourceBusy .. => .isDirectory p
  | _ => .unsupported p

-- Runs an action on a file.
def attempt {β : Type} (p : Path) (act : IO β) : IO (Except FileError β) := do
  try return .ok (← act)
  catch e => return .error (fileError p e)

def machine : IO (Surroundings IO) := do
  let input ← IO.getStdin
  let isTerminal ← input.isTty
  return {
    isTerminal
    stdin := input.readToEnd
    read := fun p => attempt p do return (← IO.FS.readBinFile p.text).toList
    write := fun p text => attempt p (IO.FS.writeFile p.text text)
    saveImage := fun p _ => return .error (.unsupported p)
    fonts := { names := [], extent := fun size => ⟨0, 0, size * 3 / 5, size * 3 / 4⟩ } }

-- Writes what a run has to say, and gives its exit code.
def report (o : Outcome) : IO UInt32 := do
  let out ← IO.getStdout
  let err ← IO.getStderr
  out.putStr o.stdout
  out.flush
  err.putStr o.stderr
  match o.ending with
  | .exit code => return UInt32.ofNat code
  | .shown => return 0
  | .fileFailed e => err.putStrLn e.message; return 1
  | .notText e => err.putStrLn e.message; return 1
  | .numberFailed f => err.putStrLn f.message; return 1

def main (argv : List String) : IO UInt32 := do
  report (← run (← machine) argv)
