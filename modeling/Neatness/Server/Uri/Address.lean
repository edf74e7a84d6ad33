import Neatness.Server.Uri.Percent

/-!
# Network addresses

A host may be an address of four bytes or of eight pieces.  The first kind is written as up to four
numbers with dots between them, each decimal, octal behind a zero or hexadecimal behind `0x`, and
the last number fills the bytes that are left.  The second kind is written in hexadecimal with
colons; two colons stand for a run of zeros, and the last two pieces may be written as four bytes.
-/

namespace Neatness
namespace Server
namespace Address

/-- The number that digits to a base stand for; no digits stand for zero. -/
def numeral? (base : Nat) (ds : List Char) : Option Nat :=
  ds.foldlM (fun n d =>
    match Percent.hexValue? d with
    | some v => if v < base then some (n * base + v) else none
    | none => none) 0

/-! ## Four bytes -/

/-- One number of an address of four bytes. -/
def number? : List Char → Option Nat
  | [] => none
  | '0' :: 'x' :: ds => numeral? 16 ds
  | '0' :: d :: ds => numeral? 8 (d :: ds)
  | ds => numeral? 10 ds

/-- The parts between the dots; a dot at the end does not start another one. -/
def dotted (cs : List Char) : List (List Char) :=
  match (cs.splitOn '.').reverse with
  | [] :: parts => parts.reverse
  | parts => parts.reverse

/-- The last part is a number, or looks like one, so the whole is meant as an address. -/
def looksNumeric (cs : List Char) : Bool :=
  match (dotted cs).getLast? with
  | none => false
  | some last => (!last.isEmpty && last.all Char.isDigit) || (number? last).isSome

/-- Read an address of four bytes, as one number. -/
def fourBytes? (cs : List Char) : Option Nat := do
  let numbers ← (dotted cs).mapM number?
  match numbers.reverse with
  | [] => none
  | last :: front =>
    let room := Nat.pow 256 (4 - front.length)
    if 3 < front.length || front.any (255 < ·) || room ≤ last then none
    else some (front.reverse.foldl (fun n b => n * 256 + b) 0 * room + last)

def join (sep : Char) (parts : List (List Char)) : List Char :=
  [sep].intercalate parts

def writeFourBytes (n : Nat) : List Char :=
  join '.' ([0x1000000, 0x10000, 0x100, 1].map fun unit => Nat.toDigits 10 (n / unit % 256))

/-! ## Eight pieces -/

/-- One of four decimal bytes at the end of an address of eight pieces: no zero leads. -/
def plainByte? : List Char → Option Nat
  | [] => none
  | '0' :: _ :: _ => none
  | ds => (numeral? 10 ds).filter (· ≤ 255)

/-- One piece of up to four hexadecimal digits. -/
def piece? (ds : List Char) : Option Nat :=
  if ds.isEmpty || 4 < ds.length then none else numeral? 16 ds

/-- Four bytes as two pieces. -/
def twoPieces? (cs : List Char) : Option (List Nat) := do
  match ← (cs.splitOn '.').mapM plainByte? with
  | [a, b, c, d] => some [a * 256 + b, c * 256 + d]
  | _ => none

/-- Pieces with colons between them; the last two may be written as four bytes. -/
def pieces? : List (List Char) → Option (List Nat)
  | [] => some []
  | [last] => if last.contains '.' then twoPieces? last else (piece? last).map fun n => [n]
  | p :: ps =>
    match piece? p with
    | some n => (pieces? ps).map (n :: ·)
    | none => none

/-- The pieces of one side of two colons; nothing there is no pieces. -/
def side? (cs : List Char) : Option (List Nat) :=
  if cs.isEmpty then some [] else pieces? (cs.splitOn ':')

/-- The texts before and behind the first two colons. -/
def cutColons : List Char → Option (List Char × List Char)
  | ':' :: ':' :: cs => some ([], cs)
  | c :: cs => (cutColons cs).map fun (left, right) => (c :: left, right)
  | [] => none

def eightPieces? (cs : List Char) : Option (List Nat) :=
  match cutColons cs with
  | none => (side? cs).filter (·.length == 8)
  | some (left, right) =>
    if left.contains '.' then none
    else
      match side? left, side? right with
      | some a, some b =>
        if a.length + b.length < 8 then
          some (a ++ List.replicate (8 - a.length - b.length) 0 ++ b)
        else none
      | _, _ => none

/-- For every place, how many zeros stand from there on. -/
def zeroRuns : List Nat → List Nat
  | [] => []
  | n :: ns =>
    let runs := zeroRuns ns
    (if n = 0 then runs.headD 0 + 1 else 0) :: runs

/-- Pieces in hexadecimal with colons between them. -/
def writePieces (ns : List Nat) : List Char :=
  join ':' (ns.map (Nat.toDigits 16))

/-- An address of eight pieces; two colons stand for the first of the longest runs of at least two
zeros. -/
def writeEightPieces (ns : List Nat) : List Char :=
  let runs := zeroRuns ns
  let longest := runs.foldl Nat.max 0
  if longest < 2 then writePieces ns
  else
    let start := runs.idxOf longest
    writePieces (ns.take start) ++ [':', ':'] ++ writePieces (ns.drop (start + longest))

end Address
end Server
end Neatness
