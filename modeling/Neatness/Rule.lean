/-!
# The rules

Seven rules, in the order in which a document is checked against them and in which their problems
are reported.  Every rule has a name, under which a configuration refers to it, and an icon for
reports.
-/

namespace Neatness

/-- A rule that a submitted document should keep. -/
inductive Rule where
  | absolutePath
  /-- A debug print outside every loop. -/
  | debugPrint
  | debugPrintInLoop
  | unresolvedMarker
  /-- An error handler that does nothing. -/
  | emptyErrorHandler
  | deepIndentation
  /-- The student's name is not in the first lines. -/
  | missingHeader
deriving DecidableEq, Repr

namespace Rule

/-- Every rule, in the order of checking. -/
def all : List Rule :=
  [absolutePath, debugPrint, debugPrintInLoop, unresolvedMarker, emptyErrorHandler,
    deepIndentation, missingHeader]

/-- The name that configurations and reports use. -/
def name : Rule → String
  | absolutePath => "absolute-path"
  | debugPrint => "debug-print"
  | debugPrintInLoop => "debug-print-in-loop"
  | unresolvedMarker => "unresolved-marker"
  | emptyErrorHandler => "empty-error-handler"
  | deepIndentation => "deep-indentation"
  | missingHeader => "missing-header"

/-- The icon in front of a problem's message. -/
def icon : Rule → String
  | absolutePath => "🚨"
  | debugPrint => "⚠️"
  | debugPrintInLoop => "🔁"
  | unresolvedMarker => "📝"
  | emptyErrorHandler => "☠️"
  | deepIndentation => "🍝"
  | missingHeader => "📛"

/-- The rule of a name; names are exact. -/
def ofName? (s : String) : Option Rule :=
  all.find? fun r => r.name == s

@[simp] theorem mem_all (r : Rule) : r ∈ all := by
  cases r <;> simp [all]

@[simp] theorem ofName?_name (r : Rule) : ofName? r.name = some r := by
  cases r <;> decide

/-- Only the name of a rule denotes it. -/
theorem name_of_ofName? {s : String} {r : Rule} (h : ofName? s = some r) : r.name = s := by
  have := List.find?_some h
  simpa using this

end Rule
end Neatness
