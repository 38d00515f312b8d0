import LayeredDiagram.Text.Blank
import LayeredDiagram.Text.Printable
/-!
Files by name: the operations that the command line needs, and a tree of files in memory that offers them.
-/

namespace LayeredDiagram.CommandLine

structure Path where
  -- Slashes in front: none, one, or exactly two.
  root : String
  names : List String
  deriving DecidableEq

namespace Path

-- Empty names and dots in a path mean nothing.
def ofText (s : String) : Path :=
  let chars := s.toList
  let slashes := (chars.takeWhile (· == '/')).length
  { root := if slashes = 0 then "" else if slashes = 2 then "//" else "/"
    names := ((Text.splitOn '/' chars).map String.ofList).filter fun n => n ≠ "" ∧ n ≠ "." }

def text (p : Path) : String :=
  if p.root = "" ∧ p.names = [] then "." else p.root ++ "/".intercalate p.names

def hasNull (p : Path) : Bool :=
  p.names.any fun name => name.toList.contains '\x00'

end Path

inductive FileError where
  | notFound (path : Path)
  | isDirectory (path : Path)
  | notDirectory (path : Path)
  | nameTooLong (path : Path)
  -- A name holds the null character.
  | nullInName
  | noSpace
  | unsupported (path : Path)
  deriving DecidableEq

namespace FileError

def message : FileError → String
  | notFound p => "[Errno 2] No such file or directory: " ++ Text.quoted p.text
  | isDirectory p => "[Errno 21] Is a directory: " ++ Text.quoted p.text
  | notDirectory p => "[Errno 20] Not a directory: " ++ Text.quoted p.text
  | nameTooLong p => "[Errno 36] File name too long: " ++ Text.quoted p.text
  | nullInName => "embedded null byte"
  | noSpace => "[Errno 28] No space left on device"
  | unsupported p => "[Errno 95] Operation not supported: " ++ Text.quoted p.text

end FileError

inductive Place where
  | file (bytes : List UInt8)
  -- A file that can be opened but takes no content.
  | full
  | directory
  | missing
  -- The way leads through a file.
  | blocked
  -- No place can have such a long name.
  | unnameable

-- The most bytes of one name.
def nameLimit : Nat := 255

-- The first number of bytes that is too long for a path.
def pathLimit : Nat := 4096

-- Names that lead from directory to directory, beginning at one of them.
structure Hierarchy where
  -- What stands at a place.
  place : List String → Place
  -- The directory around another one.
  parent : List String → List String

namespace Hierarchy

-- The place that names lead to, when every name but the last is that of a directory.
def resolve (h : Hierarchy) (here : List String) : List String → Except Place (List String)
  | [] => .ok here
  | name :: rest =>
    match h.place here with
    | .directory =>
      if nameLimit < name.utf8ByteSize then .error .unnameable
      else resolve h (if name = ".." then h.parent here else here ++ [name]) rest
    | .file _ | .full => .error .blocked
    | place => .error place

def find (h : Hierarchy) (names : List String) : Place :=
  match h.resolve [] names with
  | .error place => place
  | .ok place => h.place place

end Hierarchy

-- Directories that are found on every machine.
def commonDirectories : List String :=
  ["bin", "dev", "etc", "home", "lib", "opt", "proc", "root", "run", "sbin", "srv", "sys", "tmp", "usr", "var"]

-- What every machine has.
def commonFiles : Hierarchy where
  place
    | [] => .directory
    | ["dev", "null"] => .file []
    | ["dev", "full"] => .full
    | [name] => if commonDirectories.contains name then .directory else .missing
    | _ => .missing
  parent names := names.dropLast

-- Files with the names on the way to them.
structure FileTree where
  files : List (List String × List UInt8)

namespace FileTree

def file? (t : FileTree) (names : List String) : Option (List UInt8) :=
  t.files.lookup names

-- Whether some file stands below a place. The tree itself and what surrounds it are directories.
def isDirectory (t : FileTree) (names : List String) : Bool :=
  names.all (· == "..") || t.files.any fun (other, _) =>
    names.isPrefixOf other && names.length < other.length

-- The tree, and what surrounds it: a step up at the start leaves the tree.
def hierarchy (t : FileTree) : Hierarchy where
  place names :=
    match t.file? names with
    | some bytes => .file bytes
    | none => if t.isDirectory names then .directory else .missing
  parent names := if names.all (· == "..") then names ++ [".."] else names.dropLast

-- Where the names of a path begin.
def origin (t : FileTree) (p : Path) : Hierarchy :=
  if p.root = "" then t.hierarchy else commonFiles

def find (t : FileTree) (p : Path) : Place :=
  if pathLimit ≤ p.text.utf8ByteSize then .unnameable else (t.origin p).find p.names

def read (t : FileTree) (p : Path) : Except FileError (List UInt8) :=
  if p.hasNull then .error .nullInName
  else match t.find p with
  | .file bytes => .ok bytes
  | .full => .ok []
  | .directory => .error (.isDirectory p)
  | .missing => .error (.notFound p)
  | .blocked => .error (.notDirectory p)
  | .unnameable => .error (.nameTooLong p)

-- Puts a file in place of an earlier one, or beside the others.
def insert (t : FileTree) (names : List String) (bytes : List UInt8) : FileTree :=
  if (t.file? names).isSome then
    ⟨t.files.map fun f => if f.1 = names then (names, bytes) else f⟩
  else ⟨t.files ++ [(names, bytes)]⟩

-- Stores a file in a directory that exists. What stands outside the tree is not kept.
def store (t : FileTree) (p : Path) (bytes : List UInt8) : Except FileError FileTree :=
  match (t.origin p).resolve [] p.names with
  | .error _ => .error (.notFound p)
  | .ok names => .ok (if p.root ≠ "" ∨ names.head? = some ".." then t else t.insert names bytes)

def write (t : FileTree) (p : Path) (bytes : List UInt8) : Except FileError FileTree :=
  if p.hasNull then .error .nullInName
  else match t.find p with
    | .directory => .error (.isDirectory p)
    | .blocked => .error (.notDirectory p)
    | .unnameable => .error (.nameTooLong p)
    | .full => if bytes.isEmpty then .ok t else .error .noSpace
    | .file _ | .missing => t.store p bytes

end FileTree

end LayeredDiagram.CommandLine
