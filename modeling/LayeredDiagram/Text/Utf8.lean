import LayeredDiagram.Text.Printable
/-!
Reading UTF-8. The first fault ends the reading and is reported with its place.
-/

namespace LayeredDiagram.Text

inductive Utf8Fault where
  | badStart
  | badContinuation
  | endOfData
  deriving DecidableEq

-- A fault with the positions of the first byte that belongs to it and of the first one behind it.
structure Utf8Error where
  fault : Utf8Fault
  start : Nat
  stop : Nat
  -- The byte at the start.
  byte : UInt8
  deriving DecidableEq

namespace Utf8Error

def message (e : Utf8Error) : String :=
  let reason := match e.fault with
    | .badStart => "invalid start byte"
    | .badContinuation => "invalid continuation byte"
    | .endOfData => "unexpected end of data"
  let place :=
    if e.stop = e.start + 1 then
      "byte 0x" ++ String.ofList (hexDigits 2 e.byte.toNat) ++ s!" in position {e.start}"
    else s!"bytes in position {e.start}-{e.stop - 1}"
  "'utf-8' codec can't decode " ++ place ++ ": " ++ reason

end Utf8Error

namespace Utf8

def isContinuation (b : UInt8) : Bool :=
  0x80 ≤ b && b ≤ 0xBF

-- How many continuation bytes follow a start byte, if it is one.
def length? (b : UInt8) : Option Nat :=
  if b < 0x80 then some 0
  else if 0xC2 ≤ b && b ≤ 0xDF then some 1
  else if 0xE0 ≤ b && b ≤ 0xEF then some 2
  else if 0xF0 ≤ b && b ≤ 0xF4 then some 3
  else none

-- Whether a byte may come second. Overlong forms, surrogates and numbers that are too large are
-- ruled out here.
def mayFollow (first second : UInt8) : Bool :=
  isContinuation second
    && (first != 0xE0 || 0xA0 ≤ second) && (first != 0xED || second < 0xA0)
    && (first != 0xF0 || 0x90 ≤ second) && (first != 0xF4 || second < 0x90)

-- The bits that a start byte contributes.
def startBits (b : UInt8) : Nat :=
  if b < 0x80 then b.toNat
  else if b < 0xE0 then b.toNat % 0x20
  else if b < 0xF0 then b.toNat % 0x10
  else b.toNat % 0x08

-- Reads a number of continuation bytes. Gives the value with those before, or how many bytes were
-- good and why the next one is not.
def continuations (first : UInt8) (value good : Nat) : Nat → List UInt8 → Except (Nat × Utf8Fault) Nat
  | 0, _ => .ok value
  | _ + 1, [] => .error (good, .endOfData)
  | count + 1, b :: rest =>
    let allowed : Bool := if good = 0 then mayFollow first b else isContinuation b
    if allowed then continuations first (value * 0x40 + b.toNat % 0x40) (good + 1) count rest
    else .error (good, .badContinuation)

-- Reads bytes from a position on. Bytes that belong to a character already read are skipped.
def readFrom (position : Nat) : Nat → List UInt8 → Except Utf8Error (List Char)
  | _, [] => .ok []
  | skipped + 1, _ :: rest => readFrom (position + 1) skipped rest
  | 0, b :: rest =>
    match length? b with
    | none => .error ⟨.badStart, position, position + 1, b⟩
    | some count =>
      match continuations b (startBits b) 0 count rest with
      | .error (good, fault) => .error ⟨fault, position, position + 1 + good, b⟩
      | .ok value => (readFrom (position + 1) count rest).map (Char.ofNat value :: ·)

def decode (bytes : List UInt8) : Except Utf8Error String :=
  (readFrom 0 0 bytes).map String.ofList

end Utf8

end LayeredDiagram.Text
