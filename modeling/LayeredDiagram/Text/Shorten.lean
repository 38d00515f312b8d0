import LayeredDiagram.Text.Blank
import LayeredDiagram.Text.Word
/-!
Shortening a text to a width. Runs of blanks become single spaces; a text that is still too long keeps
as many chunks as leave room for an ellipsis. Chunks are words, runs of spaces, dashes between
words, and the parts of hyphenated words.
-/

namespace LayeredDiagram.Text

-- The blanks that separate chunks.
def isGap (c : Char) : Bool :=
  c == ' ' || (0x09 ≤ c.toNat && c.toNat ≤ 0x0D)

-- Whether a character may stand in front of a dash between words.
def leadsDash (c : Char) : Bool :=
  isWord c || ['!', '"', '\'', '&', '.', ',', '?'].contains c

-- The length of a run of two or more hyphens with a word character behind it, at the start of a
-- text.
def dashLength? (s : List Char) : Option Nat :=
  let run := s.takeWhile (· == '-')
  if 2 ≤ run.length && ((s.drop run.length).head?.any isWord) then some run.length else none

-- Whether a hyphen just read can end a chunk: two letters, or a letter, a hyphen and a letter stand
-- in front of it, and a letter, possibly a hyphen, and a letter behind it. The characters read come
-- with the last one first.
def endsAtHyphen (read rest : List Char) : Bool :=
  let before := match read with
    | '-' :: b :: a :: more =>
      isLetter b && (isLetter a || (a == '-' && more.head?.any isLetter))
    | _ => false
  let behind := match rest with
    | a :: '-' :: b :: _ => isLetter a && isLetter b
    | a :: b :: _ => isLetter a && isLetter b
    | _ => false
  before && behind

-- Whether a chunk ends between the characters read, the last one first, and the rest.
def endsChunk (read rest : List Char) : Bool :=
  match rest with
  | [] => true
  | c :: _ =>
    isGap c || endsAtHyphen read rest || (read.head?.any leadsDash && (dashLength? rest).isSome)

-- The chunk of characters other than blanks at the start of a text, and what follows. At least one
-- character is taken; those read before come with the last one first.
def takeChunk : List Char → List Char → List Char × List Char
  | _, [] => ([], [])
  | read, c :: rest =>
    if endsChunk (c :: read) rest then ([c], rest)
    else
      let more := takeChunk (c :: read) rest
      (c :: more.1, more.2)

-- The chunks of a text, at most as many as the fuel; the characters read before come with the last
-- one first.
def chunks : Nat → List Char → List Char → List (List Char)
  | 0, _, _ => []
  | _, _, [] => []
  | fuel + 1, read, c :: rest =>
    let s := c :: rest
    let chunk :=
      if isGap c then s.takeWhile isGap
      else
        match (if read.head?.any leadsDash then dashLength? s else none) with
        | some n => s.take n
        | none => (takeChunk read s).1
    chunk :: chunks fuel (chunk.reverse ++ read) (s.drop chunk.length)

-- The longest beginning of a list of chunks that fits into a width.
def fitting : Nat → List (List Char) → List (List Char)
  | _, [] => []
  | room, chunk :: rest =>
    if chunk.length ≤ room then chunk :: fitting (room - chunk.length) rest else []

-- The beginning of a chunk up to its last hyphen within some room, if anything else stands in front
-- of that hyphen.
def hyphenated? (room : Nat) (chunk : List Char) : Option (List Char) :=
  let cut := ((chunk.take room).reverse.dropWhile (· ≠ '-')).reverse
  if cut.any (· ≠ '-') then some cut else none

-- The chunks on the first line. A chunk too long for any line is broken after a hyphen.
def firstLine (width : Nat) (all : List (List Char)) : List (List Char) :=
  let kept := fitting width all
  match all.drop kept.length with
  | next :: _ =>
    if width < next.length then
      kept ++ (hyphenated? (width - kept.flatten.length) next).toList
    else kept
  | [] => kept

-- Drops chunks from the end while a space is last or the ellipsis does not fit.
def dropLast (width ellipsis : Nat) : List (List Char) → List (List Char)
  | [] => []
  | chunk :: before =>
    let total := (chunk :: before).flatten.length
    if (trim chunk).isEmpty || width < total + ellipsis then dropLast width ellipsis before
    else chunk :: before

def ellipsis : List Char := [' ', '.', '.', '.']

-- A text with single spaces, cut to a width.
def shorten (width : Nat) (s : String) : String :=
  let spaced := join [' '] (words s.toList)
  if spaced.length ≤ width then String.ofList spaced
  else
    let kept :=
      (dropLast width ellipsis.length (firstLine width (chunks spaced.length [] spaced)).reverse).reverse
    if kept.isEmpty then String.ofList (trimStart ellipsis)
    else String.ofList (kept.flatten ++ ellipsis)

end LayeredDiagram.Text
