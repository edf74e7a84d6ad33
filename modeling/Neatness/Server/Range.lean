import Neatness.Location

/-!
# Ranges for editors

Editors count lines from zero and columns in UTF-16 units, in numbers of 32 bits; of a larger number
the low bits are left.  The range of a location is the one character that stands there, or a single
column at the end of a line.
-/

namespace Neatness
namespace Server

/-- UTF-16 units of a character. -/
def units (c : Char) : Nat :=
  if c.toNat < 0x10000 then 1 else 2

/-- UTF-16 units of a text. -/
def unitLength : List Char → Nat
  | [] => 0
  | c :: cs => units c + unitLength cs

/-- A line and a column, counted from zero. -/
structure Position where
  line : UInt32
  /-- Column in UTF-16 units. -/
  character : UInt32
deriving DecidableEq, Repr

/-- A stretch of text. -/
structure Range where
  start : Position
  /-- The position behind the last one. -/
  stop : Position
deriving DecidableEq, Repr

/-- A line of a text, without its newline; empty if the text has fewer lines. -/
def lineAt (text : List Char) : Nat → List Char
  | 0 => text.takeWhile (· != '\n')
  | n + 1 =>
    match text.dropWhile (· != '\n') with
    | [] => []
    | _ :: rest => lineAt rest n

/-- The range of the character at a location. -/
def Range.ofLocation (text : List Char) (l : Location) : Range :=
  let line := l.line - 1
  let here := lineAt text line
  let start := unitLength (here.take (l.column - 1))
  let width := match here.drop (l.column - 1) with
    | [] => 1
    | c :: _ => units c
  ⟨⟨.ofNat line, .ofNat start⟩, ⟨.ofNat line, .ofNat (start + width)⟩⟩

end Server
end Neatness
