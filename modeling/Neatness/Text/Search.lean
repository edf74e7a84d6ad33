/-!
# Searching a text

A text is a list of characters, and a place in it is what stands before it and what follows.
Places are reported as byte offsets: every character counts with the length of its UTF-8 form.

* `Probe` tests a place, and `first?` is the offset of the first place that passes.
* `Form` says how many characters a written form takes at the start of a text; forms are put
  together with `Form.andThen` and `Form.oneOf`.
* `occurrences` lists the places of a form from left to right, each one starting where the one
  before it has ended.
-/

namespace Neatness
namespace Text

/-- Bytes that a text takes in UTF-8. -/
def byteLength : List Char → Nat
  | [] => 0
  | c :: cs => c.utf8Size + byteLength cs

@[simp] theorem byteLength_nil : byteLength [] = 0 := rfl

@[simp] theorem byteLength_cons (c : Char) (cs : List Char) :
    byteLength (c :: cs) = c.utf8Size + byteLength cs := rfl

@[simp] theorem byteLength_append (xs ys : List Char) :
    byteLength (xs ++ ys) = byteLength xs + byteLength ys := by
  induction xs with
  | nil => simp
  | cons c cs ih => simp [ih, Nat.add_assoc]

/-! ## The first place that passes a test -/

/-- A test of a place: the character before it, if any, and all that follows. -/
abbrev Probe := Option Char → List Char → Bool

/-- The first passing place of a text that starts at `offset` behind the character `before`. -/
def firstFrom (probe : Probe) (before : Option Char) (offset : Nat) : List Char → Option Nat
  | [] => if probe before [] then some offset else none
  | c :: cs =>
    if probe before (c :: cs) then some offset
    else firstFrom probe (some c) (offset + c.utf8Size) cs

/-- Byte offset of the first place that passes. -/
def first? (probe : Probe) (text : List Char) : Option Nat :=
  firstFrom probe none 0 text

/-! ## Forms -/

/-- The number of characters that a form takes at the start of a text, if it stands there. -/
abbrev Form := List Char → Option Nat

/-- Exactly these characters. -/
def literal (word : List Char) : Form := fun cs =>
  if word.isPrefixOf cs then some word.length else none

/-- As many characters of a class as follow, possibly none. -/
def run (p : Char → Bool) : Form := fun cs =>
  some (cs.takeWhile p).length

/-- The end of a word: takes nothing. -/
def wordEnd (closes : List Char → Bool) : Form := fun cs =>
  if closes cs then some 0 else none

/-- One form, then another right behind it. -/
def Form.andThen (f g : Form) : Form := fun cs =>
  match f cs with
  | none => none
  | some n => (g (cs.drop n)).map (n + ·)

/-- The first of several forms that stands here. -/
def Form.oneOf (forms : List Form) : Form := fun cs =>
  forms.findSome? fun f => f cs

/-! ## All places of a form -/

/-- A place where a form stands: its offset, the characters from there on, and how many of them
the form takes. -/
structure Occurrence where
  /-- Byte offset of the first character. -/
  start : Nat
  /-- The text from the first character on. -/
  here : List Char
  /-- Characters taken. -/
  length : Nat
deriving DecidableEq, Repr

namespace Occurrence

/-- Byte offset behind the last character taken. -/
def stop (o : Occurrence) : Nat :=
  o.start + byteLength (o.here.take o.length)

/-- What follows the last character taken. -/
def rest (o : Occurrence) : List Char :=
  o.here.drop o.length

end Occurrence

/-- The places of a form whose start passes `opens`, in a text that starts at `offset` behind
`before`; the next `skip` characters belong to the place found last. -/
def occurrencesFrom (opens : Option Char → Bool) (form : Form) (before : Option Char)
    (offset skip : Nat) : List Char → List Occurrence
  | [] => []
  | c :: cs =>
    match skip with
    | skip + 1 => occurrencesFrom opens form (some c) (offset + c.utf8Size) skip cs
    | 0 =>
      match (if opens before then form (c :: cs) else none) with
      | none => occurrencesFrom opens form (some c) (offset + c.utf8Size) 0 cs
      | some n =>
        ⟨offset, c :: cs, n⟩ ::
          occurrencesFrom opens form (some c) (offset + c.utf8Size) (n - 1) cs

/-- The places of a form from left to right, none starting inside another. -/
def occurrences (opens : Option Char → Bool) (form : Form) (text : List Char) :
    List Occurrence :=
  occurrencesFrom opens form none 0 0 text

/-! ## Parts of a text -/

/-- Whether a part stands somewhere in a text. -/
def hasPart (part : List Char) : List Char → Bool
  | [] => part.isEmpty
  | c :: cs => part.isPrefixOf (c :: cs) || hasPart part cs

end Text
end Neatness
