import Neatness.Location
import Neatness.Rule
import Neatness.Score

/-!
# Scan results

The outcome of checking one document: its problems in the order of the rules, the score that is
left, and whether one of the broken rules blocks the submission.
-/

namespace Neatness

/-- A broken rule, charged. -/
structure Problem where
  rule : Rule
  message : String
  deduction : UInt8
  /-- Where the rule was broken first. -/
  location : Location
deriving DecidableEq, Repr

/-- The outcome of checking a document. -/
structure ScanResult where
  score : UInt8
  /-- A rule that blocks was broken. -/
  fatal : Bool
  /-- The problems, in the order of the rules. -/
  problems : List Problem
deriving DecidableEq, Repr

namespace ScanResult

def clean : ScanResult :=
  ⟨Score.perfect, false, []⟩

def isPerfect (r : ScanResult) : Bool :=
  r.score == Score.perfect

def messages (r : ScanResult) : List String :=
  r.problems.map (·.message)

/-- Points taken by all problems together. -/
def totalDeduction (r : ScanResult) : Nat :=
  Score.total (r.problems.map (·.deduction))

def hasRule (r : ScanResult) (rule : Rule) : Bool :=
  r.problems.any fun p => p.rule == rule

end ScanResult
end Neatness
