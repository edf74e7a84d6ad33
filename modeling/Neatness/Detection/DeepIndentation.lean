import Neatness.Detection
import Neatness.Text.Blank
import Neatness.Text.Search

/-!
# Deep indentation

A line that starts with sixteen blanks or more sits too deep.  Every blank counts as one, the tab
and the carriage return included, and a line of nothing but blanks counts as well.
-/

namespace Neatness
namespace DeepIndentation

/-- Blanks at the start of a line that are too many. -/
def limit : Nat := 16

/-- At least `n` blanks follow on this line. -/
def blanksFollow : Nat → List Char → Bool
  | 0, _ => true
  | _ + 1, [] => false
  | n + 1, c :: cs => Text.isBlank c && c != '\n' && blanksFollow n cs

/-- A line starts here, too deep. -/
def opensAt : Text.Probe := fun before cs =>
  (before.isNone || before == some '\n') && blanksFollow limit cs

def message : String :=
  "Deep indentation (Spaghetti code). Refactor into functions."

/-- The start of the first line that sits too deep. -/
def check (text : List Char) : Option Detection :=
  (Text.first? opensAt text).map fun offset => ⟨.deepIndentation, offset, message⟩

end DeepIndentation
end Neatness
