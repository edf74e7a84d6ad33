import Neatness.Text.Search
import Neatness.Text.Word

/-!
# Loop bodies

Loop bodies are found in the text alone: a loop keyword, the first opening brace shortly behind it,
and everything up to the brace that closes it.  `loopOpeners` are the offsets of the opening
braces, and `firstInside` walks over the text once, keeping the open braces on a stack, to find the
first of some given places that lies in a loop body.  A body that is never closed runs to the end
of the text.
-/

namespace Neatness
namespace LoopBody

def openBrace : Char := '\x7b'

def closeBrace : Char := '\x7d'

/-- How many bytes behind a loop keyword its opening brace is looked for. -/
def headerWindow : Nat := 160

/-- A loop keyword as a whole word. -/
def keyword : Text.Form :=
  let word (w : List Char) := (Text.literal w).andThen (Text.wordEnd Text.closesWord)
  Text.Form.oneOf [word ['f', 'o', 'r'], word ['w', 'h', 'i', 'l', 'e']]

def keywords (text : List Char) : List Text.Occurrence :=
  Text.occurrences Text.opensWord keyword text

/-- Offset of the first opening brace that starts within the next `window` bytes. -/
def braceWithin (window offset : Nat) : List Char → Option Nat
  | [] => none
  | c :: cs =>
    if window = 0 then none
    else if c = openBrace then some offset
    else braceWithin (window - c.utf8Size) (offset + c.utf8Size) cs

/-- Offsets of the braces that open a loop body, in ascending order; keywords that share their
brace give it once. -/
def loopOpeners (text : List Char) : List Nat :=
  ((keywords text).filterMap fun k => braceWithin headerWindow k.stop k.rest).eraseReps

/-- The first of the ascending `marks` that lies in a loop body, in the text that starts at
`offset`.  `braces` are the blocks open so far, innermost first, each with the note whether it is a
loop body, and `openLoops` is the number of loop bodies among them. -/
def firstInside (marks openers : List Nat) (braces : List Bool) (openLoops offset : Nat) :
    List Char → Option Nat
  | [] => none
  | c :: cs =>
    match marks with
    | [] => none
    | mark :: later =>
      if mark = offset ∧ 0 < openLoops then some offset
      else
        let marks := if mark = offset then later else mark :: later
        let next := offset + c.utf8Size
        if c = openBrace then
          if openers.head? = some offset then
            firstInside marks openers.tail (true :: braces) (openLoops + 1) next cs
          else firstInside marks openers (false :: braces) openLoops next cs
        else if c = closeBrace then
          match braces with
          -- A closing brace without its opening one closes nothing.
          | [] => firstInside marks openers [] openLoops next cs
          | isLoop :: outer =>
            firstInside marks openers outer (if isLoop then openLoops - 1 else openLoops) next cs
        else firstInside marks openers braces openLoops next cs

end LoopBody
end Neatness
