/-!
# Letters beyond the basic block in domain names

A part of a domain name that has characters beyond the basic block is written with letters, digits
and hyphens only.  The basic characters come first, with a hyphen behind them.  The others follow in
ascending order, each as the number of places that a cursor passes from one to the next when it goes
through the text once for every code point.  Such a number is written to base 36, lowest digit
first; the digit that ends it lies below a threshold, which depends on how large the numbers before
it were.

`encode` writes the text and `decode?` reads it back.
-/

namespace Neatness
namespace Server
namespace Punycode

/-! ## Digits -/

/-- A digit: letters come first, then decimal digits. -/
def digitChar (d : Nat) : Char :=
  if d < 26 then Char.ofNat (97 + d) else Char.ofNat (22 + d)

def digitValue? (c : Char) : Option Nat :=
  if 'a' ≤ c ∧ c ≤ 'z' then some (c.toNat - 97)
  else if c.isDigit then some (c.toNat - 22)
  else none

/-- The threshold of the digit at a place; places count 36, 72 and so on. -/
def threshold (bias place : Nat) : Nat :=
  if place ≤ bias then 1 else if bias + 26 ≤ place then 26 else place - bias

theorem threshold_pos (bias place : Nat) : 0 < threshold bias place := by
  unfold threshold
  split
  · omega
  · split <;> omega

/-- The bias for numbers of about the size of `delta`. -/
def biasOf (delta place : Nat) : Nat :=
  if 455 < delta then biasOf (delta / 35) (place + 36) else place + 36 * delta / (delta + 38)
termination_by delta
decreasing_by exact Nat.div_lt_self (by omega) (by omega)

/-- The bias after a number was written for one of `size` characters. -/
def nextBias (delta size : Nat) (first : Bool) : Nat :=
  let delta := if first then delta / 700 else delta / 2
  biasOf (delta + delta / size) 0

/-! ## Writing -/

/-- A number, from a place on. -/
def writeNumber (bias place n : Nat) : List Char :=
  if n < threshold bias place then [digitChar n]
  else
    let base := 36 - threshold bias place
    let rest := n - threshold bias place
    digitChar (threshold bias place + rest % base) :: writeNumber bias (place + 36) (rest / base)
termination_by n
decreasing_by
  have := threshold_pos bias place
  have := Nat.div_le_self (n - threshold bias place) (36 - threshold bias place)
  omega

/-- How far the writing has come. -/
structure Progress where
  written : List Char := []
  /-- Places passed since the last character. -/
  delta : Nat := 0
  bias : Nat := 72
  /-- Characters that are dealt with. -/
  size : Nat
deriving Repr

/-- The cursor passes one character on its way for a code point. -/
def Progress.pass (basic code : Nat) (p : Progress) (c : Char) : Progress :=
  if c.toNat < code then { p with delta := p.delta + 1 }
  else if c.toNat = code then
    { written := p.written ++ writeNumber p.bias 36 p.delta
      delta := 0
      bias := nextBias p.delta (p.size + 1) (p.size == basic)
      size := p.size + 1 }
  else p

/-- The cursor goes through the text for each of the code points; `next` is the first one that it
has not been through for. -/
def Progress.run (cs : List Char) (basic : Nat) : (next : Nat) → List Nat → Progress → Progress
  | _, [], p => p
  | next, code :: codes, p =>
    let p := { p with delta := p.delta + (code - next) * (p.size + 1) }
    let p := cs.foldl (Progress.pass basic code) p
    Progress.run cs basic (code + 1) codes { p with delta := p.delta + 1 }

def isBasic (c : Char) : Bool :=
  c.toNat < 0x80

/-- A code point put in its place among ascending ones, once. -/
def insertCode (n : Nat) : List Nat → List Nat
  | [] => [n]
  | m :: ms => if n < m then n :: m :: ms else if n = m then m :: ms else m :: insertCode n ms

/-- The code points beyond the basic block, ascending, each once. -/
def codes (cs : List Char) : List Nat :=
  (cs.filter (!isBasic ·)).foldr (fun c ns => insertCode c.toNat ns) []

/-- A text with letters, digits and hyphens only. -/
def encode (cs : List Char) : List Char :=
  let basic := cs.filter isBasic
  basic ++ (if basic.isEmpty then [] else ['-']) ++
    (Progress.run cs basic.length 0x80 (codes cs) { size := basic.length }).written

/-! ## Reading -/

/-- A number under way, when a text is read. -/
structure Cursor where
  /-- The code point and the place that the cursor had reached. -/
  code : Nat := 0x80
  start : Nat := 0
  /-- Places passed since then, as far as they are read. -/
  delta : Nat := 0
  /-- What the next digit counts. -/
  weight : Nat := 1
  place : Nat := 36
  bias : Nat := 72
deriving Repr

/-- Put the characters that digits stand for among those that are read. -/
def insertFrom (read : List Char) (k : Cursor) : List Char → Option (List Char)
  | [] => if k.place = 36 then some read else none
  | d :: ds =>
    match digitValue? d with
    | none => none
    | some v =>
      let delta := k.delta + v * k.weight
      let t := threshold k.bias k.place
      if v < t then
        let size := read.length + 1
        let code := k.code + (k.start + delta) / size
        let place := (k.start + delta) % size
        if code.isValidChar then
          insertFrom (read.take place ++ Char.ofNat code :: read.drop place)
            { code, start := place + 1, bias := nextBias delta size (k.start == 0) } ds
        else none
      else
        insertFrom read
          { k with delta, weight := k.weight * (36 - t), place := k.place + 36 } ds

/-- The text before the last hyphen, and the text behind it. -/
def cutHyphen (cs : List Char) : List Char × List Char :=
  let tail := (cs.reverse.takeWhile (· != '-')).reverse
  ((cs.take (cs.length - tail.length)).dropLast, tail)

/-- Read a text that was written with letters, digits and hyphens only. -/
def decode? (cs : List Char) : Option (List Char) :=
  let (basic, digits) := cutHyphen cs
  if basic.all isBasic then insertFrom basic {} digits else none

end Punycode
end Server
end Neatness
