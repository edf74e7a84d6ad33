import Neatness.Text.WordRanges

/-!
# Word characters and word boundaries

A keyword counts only as a whole word, so the rules ask for the class of the character before and
after it.  `isWordChar` is the class; `opensWord` and `closesWord` say that a word may start, or
has ended, between a character and what follows.
-/

namespace Neatness
namespace Text

/-- Whether a code point lies in one of the ascending ranges. -/
def inRanges (n : Nat) : List (Nat × Nat) → Bool
  | [] => false
  | (first, last) :: ranges => first ≤ n && (n ≤ last || inRanges n ranges)

/-- Letters, marks, digits, connectors and joiners. -/
def isWordChar (c : Char) : Bool :=
  if c.toNat < 0x80 then c.isAlphanum || c == '_' else inRanges c.toNat wordRanges

/-- No word reaches up to here from the left. -/
def opensWord : Option Char → Bool
  | none => true
  | some c => !isWordChar c

/-- No word goes on from here to the right. -/
def closesWord : List Char → Bool
  | [] => true
  | c :: _ => !isWordChar c

@[simp] theorem opensWord_none : opensWord none = true := rfl

@[simp] theorem closesWord_nil : closesWord [] = true := rfl

end Text
end Neatness
