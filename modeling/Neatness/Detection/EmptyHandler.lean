import Neatness.Detection
import Neatness.Detection.LoopBody
import Neatness.Text.Blank

/-!
# Error handlers that do nothing

Two spellings are known.  A `catch` clause is empty when the braces behind it, and behind the
parameter in parentheses if there is one, hold blanks only.  An `except` clause is empty when a
`pass` or three dots follow its colon, on the same line or on the next one; a comment in between
may reach any distance, so the words of the comment count too.
-/

namespace Neatness
namespace EmptyHandler

/-- What follows a whole word that stands here. -/
def afterWord? (word : List Char) (before : Option Char) (cs : List Char) : Option (List Char) :=
  if Text.opensWord before && word.isPrefixOf cs && Text.closesWord (cs.drop word.length) then
    some (cs.drop word.length)
  else none

/-- Braces with nothing but blanks between them, behind blanks. -/
def emptyBlock (cs : List Char) : Bool :=
  match cs.dropWhile Text.isBlank with
  | [] => false
  | c :: cs =>
    c == LoopBody.openBrace &&
      (cs.dropWhile Text.isBlank).head? == some LoopBody.closeBrace

/-- An empty block, behind a parameter in parentheses if there is one. -/
def emptyBody (cs : List Char) : Bool :=
  match cs.dropWhile Text.isBlank with
  | '(' :: cs => emptyBlock ((cs.dropWhile (· != ')')).drop 1)
  | cs => emptyBlock cs

/-- An empty `catch` clause starts here. -/
def catchAt : Text.Probe := fun before cs =>
  match afterWord? ['c', 'a', 't', 'c', 'h'] before cs with
  | some cs => emptyBody cs
  | none => false

/-- A statement that does nothing starts here. -/
def idle (cs : List Char) : Bool :=
  (['p', 'a', 's', 's'].isPrefixOf cs && Text.closesWord (cs.drop 4)) ||
    ['.', '.', '.'].isPrefixOf cs

/-- A line break stands here and the next line starts with a statement that does nothing. -/
def idleNextLine : List Char → Bool
  | '\n' :: cs => idle (cs.dropWhile Text.isInline)
  | '\r' :: '\n' :: cs => idle (cs.dropWhile Text.isInline)
  | _ => false

/-- A statement that does nothing, here or at the start of the next line. -/
def idleFollows (cs : List Char) : Bool :=
  idle cs || idleNextLine cs

/-- A statement that does nothing follows some part of the comment that goes on here. -/
def idleBehindComment : List Char → Bool
  | [] => idleFollows []
  | c :: cs => idleFollows (c :: cs) || (c != '\n' && idleBehindComment cs)

/-- The body of an `except` clause does nothing: what follows its colon. -/
def idleBody (cs : List Char) : Bool :=
  match cs.dropWhile Text.isInline with
  | '#' :: cs => idleBehindComment cs
  | cs => idleFollows cs

/-- An idle `except` clause starts here. -/
def exceptAt : Text.Probe := fun before cs =>
  match afterWord? ['e', 'x', 'c', 'e', 'p', 't'] before cs with
  | some cs =>
    match cs.dropWhile (fun c => c != ':' && c != '\n') with
    | ':' :: cs => idleBody cs
    | _ => false
  | none => false

/-- The earlier of two places, when either exists. -/
def earlier : Option Nat → Option Nat → Option Nat
  | some a, some b => some (min a b)
  | some a, none => some a
  | none, b => b

def message : String :=
  "Empty catch block detected. Don't hide errors."

/-- The first empty handler; `except` clauses count only if asked for. -/
def check (exceptPass : Bool) (text : List Char) : Option Detection :=
  let catches := Text.first? catchAt text
  let excepts := if exceptPass then Text.first? exceptAt text else none
  (earlier catches excepts).map fun offset => ⟨.emptyErrorHandler, offset, message⟩

end EmptyHandler
end Neatness
