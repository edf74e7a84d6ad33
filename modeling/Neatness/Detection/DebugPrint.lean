import Neatness.Detection
import Neatness.Detection.LoopBody
import Neatness.Text.Blank

/-!
# Debug prints

Calls that write to the console, in the spelling of the languages that are taught.  A print in the
body of a loop is its own, heavier problem; a document is charged with one of the two at most, and
the heavier one wins.
-/

namespace Neatness
namespace DebugPrint

/-- Blanks and an opening parenthesis: the arguments of a call begin. -/
def callOpens : Text.Form :=
  (Text.run Text.isBlank).andThen (Text.literal ['('])

/-- One of several words followed by a call. -/
def callOf (words : List (List Char)) : Text.Form := fun cs =>
  words.findSome? fun w => ((Text.literal w).andThen callOpens) cs

/-- A print call of the browser console, by method. -/
def consoleCalls : List (List Char) :=
  ["console.log", "console.debug", "console.info", "console.warn", "console.error",
    "console.trace", "console.dir", "console.table"].map String.toList

/-- A print call on a standard stream. -/
def streamCalls : List (List Char) :=
  ["System.out.println", "System.out.printf", "System.out.print",
    "System.err.println", "System.err.printf", "System.err.print"].map String.toList

/-- A print call of a formatting or logging package. -/
def packageCalls : List (List Char) :=
  ["fmt.Print", "fmt.Println", "fmt.Printf", "Log.d", "Log.v"].map String.toList

/-- A print function called by its bare name. -/
def plainCalls : List (List Char) :=
  ["print", "printf", "var_dump", "print_r"].map String.toList

/-- A print that is expanded when the program is compiled. -/
def bangCalls : List (List Char) :=
  ["println!", "eprintln!", "print!", "eprint!", "dbg!"].map String.toList

def callWords : List (List Char) :=
  consoleCalls ++ streamCalls ++ packageCalls ++ plainCalls ++ bangCalls

/-- A word that prints without parentheses. -/
def bareWord (word : List Char) : Text.Form :=
  (Text.literal word).andThen (Text.wordEnd Text.closesWord)

/-- Output by the shift operator. -/
def shiftOut : Text.Form :=
  (Text.literal "cout".toList).andThen
    ((Text.run Text.isBlank).andThen (Text.literal ['<', '<']))

def form : Text.Form :=
  Text.Form.oneOf
    [callOf callWords, bareWord "puts".toList, bareWord "std::cout".toList, shiftOut]

def starts (text : List Char) : List Nat :=
  (Text.occurrences Text.opensWord form text).map (·.start)

/-- The first debug print in the body of a loop. -/
def inLoop? (text : List Char) : Option Nat :=
  LoopBody.firstInside (starts text) (LoopBody.loopOpeners text) [] 0 0 text

/-- What the author is told about a print outside loops. -/
def message : String :=
  "Remove 'print/console.log' statements."

/-- What the author is told about a print in a loop. -/
def loopMessage : String :=
  "Debug print inside a loop. Remove 'print/console.log' calls from loop bodies."

/-- The first print in a loop, if such prints are reported, and otherwise the first print, if plain
prints are. -/
def check (reportPlain reportLoop : Bool) (text : List Char) : Option Detection :=
  match starts text with
  | [] => none
  | offset :: _ =>
    match (if reportLoop then inLoop? text else none) with
    | some inner => some ⟨.debugPrintInLoop, inner, loopMessage⟩
    | none => if reportPlain then some ⟨.debugPrint, offset, message⟩ else none

end DebugPrint
end Neatness
