/-!
# Places as line and column

A byte offset is shown to people as a line and a column, both counted from one; a column counts
characters.  Lines end at the newline only, so a carriage return is a character of its line.
-/

namespace Neatness

/-- A line and a column of a document, counted from one. -/
structure Location where
  line : Nat
  /-- Column in characters. -/
  column : Nat
deriving DecidableEq, Repr

namespace Location

/-- The location behind one more character. -/
def advance (here : Location) (c : Char) : Location :=
  if c = '\n' then ⟨here.line + 1, 1⟩ else ⟨here.line, here.column + 1⟩

/-- The location `bytes` further on in the text that starts at `here`; a budget that ends inside a
character, or reaches past the text, stops in front of what does not fit. -/
def walk (here : Location) (bytes : Nat) : List Char → Location
  | [] => here
  | c :: cs =>
    if c.utf8Size ≤ bytes then walk (here.advance c) (bytes - c.utf8Size) cs else here

def ofOffset (text : List Char) (offset : Nat) : Location :=
  walk ⟨1, 1⟩ offset text

end Location
end Neatness
