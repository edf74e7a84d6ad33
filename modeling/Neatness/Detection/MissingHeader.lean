import Neatness.Detection
import Neatness.Text.Blank
import Neatness.Text.Search

/-!
# The name in the header

The first ten lines of a document should hold the student's name.  Without a name, or with a blank
one, nothing is asked for.
-/

namespace Neatness
namespace MissingHeader

/-- Lines that make up the header. -/
def headerLines : Nat := 10

/-- Characters in front of the `lines`-th newline, counted on from `count`; the whole text if it
has fewer newlines. -/
def lengthOfLines (count : Nat) : (lines : Nat) → List Char → Nat
  | 0, _ => count
  | _, [] => count
  | lines + 1, c :: cs =>
    if c = '\n' then
      if lines = 0 then count else lengthOfLines (count + 1) lines cs
    else lengthOfLines (count + 1) (lines + 1) cs

/-- The first ten lines, without the newline that ends the tenth. -/
def header (text : List Char) : List Char :=
  text.take (lengthOfLines 0 headerLines text)

def message (name : List Char) : String :=
  "Header missing. Add your name: '" ++ String.ofList name ++ "' to top of file."

/-- The name, without surrounding blanks, is asked for and not in the header. -/
def check (name text : List Char) : Option Detection :=
  let name := Text.trim name
  if name.isEmpty || Text.hasPart name (header text) then none
  else some ⟨.missingHeader, 0, message name⟩

end MissingHeader
end Neatness
