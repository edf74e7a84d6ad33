import Neatness.Detection
import Neatness.Text.Blank
import Neatness.Text.Search
import Neatness.Text.Word

/-!
# Markers of unfinished work

A comment whose first word is `TODO`, `FIXME` or `XXX`, in any case.  A comment opens with `//`,
`#`, `<!--`, a slash and stars, or with a star that is the first visible character of its line, as
inside a block comment.
-/

namespace Neatness
namespace UnresolvedMarker

/-- A word in capitals stands here in any case, and ends here. -/
def isWord (word cs : List Char) : Bool :=
  (cs.take word.length).map Char.toUpper == word && Text.closesWord (cs.drop word.length)

/-- Spaces and tabs, then a marker. -/
def markerFollows (cs : List Char) : Bool :=
  let cs := cs.dropWhile Text.isInline
  isWord ['T', 'O', 'D', 'O'] cs || isWord ['F', 'I', 'X', 'M', 'E'] cs ||
    isWord ['X', 'X', 'X'] cs

/-- A comment that opens here is marked. -/
def opensComment : List Char → Bool
  | '/' :: '/' :: cs => markerFollows cs
  | '#' :: cs => markerFollows cs
  | '<' :: '!' :: '-' :: '-' :: cs => markerFollows cs
  | '/' :: '*' :: cs => markerFollows (cs.dropWhile (· == '*'))
  | _ => false

/-- The line that starts here goes on with a star and a marker. -/
def opensStarLine (cs : List Char) : Bool :=
  match cs.dropWhile Text.isInline with
  | '*' :: cs => markerFollows cs
  | _ => false

/-- Nothing stands before this place on its line. -/
def startsLine : Option Char → Bool
  | none => true
  | some c => c == '\n'

/-- A marked comment starts here; a line with a leading star counts from its beginning. -/
def opensAt : Text.Probe := fun before cs =>
  opensComment cs || (startsLine before && opensStarLine cs)

def message : String :=
  "Resolve TODO comments."

def check (text : List Char) : Option Detection :=
  (Text.first? opensAt text).map fun offset => ⟨.unresolvedMarker, offset, message⟩

end UnresolvedMarker
end Neatness
