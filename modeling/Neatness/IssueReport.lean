import Neatness.ScanResult

/-!
# The report on demand

What an author sees on asking for details: a congratulation, or a heading and one line for each
problem.
-/

namespace Neatness

/-- A congratulation or a list of problems. -/
inductive IssueReport where
  | perfect (message : String)
  | issues (header : String) (items : List String)
deriving DecidableEq, Repr

namespace IssueReport

def congratulation : String :=
  "🎉 Perfect Score! You are ready to submit."

def heading (score : UInt8) : String :=
  "Current Score: " ++ toString score.toNat ++ "/100. Fix these issues:"

def ofResult (r : ScanResult) : IssueReport :=
  if r.isPerfect then .perfect congratulation
  else .issues (heading r.score) (r.problems.map fun p => p.rule.icon ++ " " ++ p.message)

end IssueReport
end Neatness
