import Neatness.Detection
import Neatness.Text.Search
import Neatness.Text.Word

/-!
# Absolute paths in string literals

A program that opens a file under an absolute path runs on its author's machine only.  The check
looks for a quote directly followed by a drive (`C:\`, `d:/`) or by a first folder (`/home/`).
-/

namespace Neatness
namespace AbsolutePath

/-- The double quote, the single quote and the back quote. -/
def isQuote (c : Char) : Bool :=
  c == '\x22' || c == '\x27' || c == '\x60'

/-- A drive letter with its colon and a slash of either kind. -/
def startsWithDrive : List Char → Bool
  | letter :: ':' :: slash :: _ => letter.isAlpha && (slash == '/' || slash == '\\')
  | _ => false

/-- A slash, a folder name of word characters, and a slash. -/
def startsWithFolder : List Char → Bool
  | '/' :: cs =>
    let name := cs.takeWhile Text.isWordChar
    !name.isEmpty && (cs.drop name.length).head? == some '/'
  | _ => false

/-- An absolute path in quotes starts here. -/
def opensAt : Text.Probe
  | _, c :: cs => isQuote c && (startsWithDrive cs || startsWithFolder cs)
  | _, [] => false

def message : String :=
  "CRITICAL: Absolute path found! Use relative paths."

/-- The first quoted absolute path. -/
def check (text : List Char) : Option Detection :=
  (Text.first? opensAt text).map fun offset => ⟨.absolutePath, offset, message⟩

end AbsolutePath
end Neatness
