import Neatness.Detection.AbsolutePath
import Neatness.Detection.DebugPrint
import Neatness.Detection.DeepIndentation
import Neatness.Detection.EmptyHandler
import Neatness.Detection.MissingHeader
import Neatness.Detection.UnresolvedMarker
import Neatness.RuleTable
import Neatness.ScanResult

/-!
# Checking a document

`analyze` runs the checks in the order of the rules.  A check is left out when none of its rules is
enabled, and a detection is charged with the penalty of its rule.  One check watches two rules: a
debug print is reported either as such or as one inside a loop.
-/

namespace Neatness

/-- A check and the rules that it may report. -/
structure Check where
  /-- The rules that the check may report. -/
  rules : List Rule
  run : (text name : List Char) → Option Detection

/-- The checks that a table asks for, in order. -/
def checks (table : RuleTable) : List Check := [
  ⟨[.absolutePath], fun text _ => AbsolutePath.check text⟩,
  ⟨[.debugPrint, .debugPrintInLoop], fun text _ =>
    DebugPrint.check (table.isEnabled .debugPrint) (table.isEnabled .debugPrintInLoop) text⟩,
  ⟨[.unresolvedMarker], fun text _ => UnresolvedMarker.check text⟩,
  ⟨[.emptyErrorHandler], fun text _ => EmptyHandler.check table.exceptPass text⟩,
  ⟨[.deepIndentation], fun text _ => DeepIndentation.check text⟩,
  ⟨[.missingHeader], fun text name => MissingHeader.check name text⟩]

/-- The problem that a check finds, charged by the table. -/
def Check.problem? (table : RuleTable) (text name : List Char) (check : Check) :
    Option Problem :=
  if check.rules.any table.isEnabled then
    match check.run text name with
    | some d =>
      if table.isEnabled d.rule then
        some ⟨d.rule, d.message, (table.entry d.rule).penalty, Location.ofOffset text d.offset⟩
      else none
    | none => none
  else none

def problemsOf (table : RuleTable) (text name : List Char) : List Problem :=
  (checks table).filterMap (Check.problem? table text name)

/-- Check a document whose header should hold `name`. -/
def analyze (table : RuleTable) (text name : String) : ScanResult :=
  let problems := problemsOf table text.toList name.toList
  { score := Score.ofDeductions (problems.map (·.deduction))
    fatal := problems.any fun p => (table.entry p.rule).fatal
    problems }

end Neatness
