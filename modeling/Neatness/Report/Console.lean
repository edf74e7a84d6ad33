import Neatness.FileScan
import Neatness.IssueReport
import Neatness.Report.Styled

/-!
# Reports for people

A scan is shown with its path, a bar for the score, its status and its problems, or in one line.
Reports are lists of fragments, so that the same report is written with and without colours.
-/

namespace Neatness

/-- A report for people. -/
structure ConsoleReporter where
  presenter : Presenter := {}
  /-- The rule of every problem is named. -/
  verbose : Bool := false
deriving DecidableEq, Repr

namespace ConsoleReporter

open Fragment (plain styled)

/-- A text several times in a row. -/
def times (n : Nat) (text : String) : String :=
  String.join (List.replicate n text)

/-- A number in at least three places. -/
def threePlaces (n : Nat) : String :=
  let digits := toString n
  times (3 - digits.length) " " ++ digits

/-- A bar of twenty boxes for a score. -/
def scoreBar (score : UInt8) : String :=
  let filled := score.toNat * 20 / 100
  "[" ++ times filled "█" ++ times (20 - filled) "░" ++ "] " ++ threePlaces score.toNat ++ "%"

def problem (r : ConsoleReporter) (p : Problem) : List Fragment :=
  [plain ("   " ++ p.rule.icon ++ " "),
    styled .dim ("L" ++ toString p.location.line ++ ":" ++ toString p.location.column),
    plain (" " ++ p.message ++ " "),
    styled .dim ("(-" ++ toString p.deduction.toNat ++ ")"),
    plain "\n"] ++
  if r.verbose then
    [plain "       ", styled .dim "↳", plain " ", styled .dim p.rule.name, plain "\n"]
  else []

/-- The problems of a result, or the congratulation. -/
def findings (r : ConsoleReporter) (result : ScanResult) : List Fragment :=
  match IssueReport.ofResult result with
  | .perfect message => [plain ("   " ++ message ++ "\n")]
  | .issues header _ =>
    [plain "   ", styled .bold header, plain "\n"] ++ result.problems.flatMap r.problem

def report (r : ConsoleReporter) (s : FileScan) : List Fragment :=
  let view := r.presenter.present s.result
  [plain "\n", styled .bold ("🎓 Grade Guardian: " ++ s.path.shown), plain "\n   ",
    styled (.tier view.tier) (scoreBar view.score), plain " ",
    styled (.tier view.tier) view.label, plain "\n   ",
    styled .dim (Score.label view.score ++ " | " ++ view.tooltip), plain "\n\n"] ++
  r.findings s.result ++ [plain "\n"]

/-- The report on one scan in one line, without the end of the line. -/
def line (r : ConsoleReporter) (s : FileScan) : List Fragment :=
  let view := r.presenter.present s.result
  [plain (s.path.shown ++ ": " ++ toString s.result.score.toNat ++ " ("),
    styled (.tier view.tier) view.tier.name, plain ")"]

def summary (s : ScanSummary) : List Fragment :=
  let rule := times 60 "═"
  [plain ("\n" ++ rule ++ "\n"), styled .bold "Summary", plain ("\n" ++ rule ++ "\n" ++
    "   Files scanned:  " ++ toString s.filesScanned ++ "\n" ++
    "   Average score:  " ++ toString s.averageScore.toNat ++ "\n" ++
    "   Perfect files:  " ++ toString s.perfectFiles ++ "\n" ++
    "   Blocked (fatal): " ++ toString s.fatalFiles ++ "\n" ++
    "   Total problems: " ++ toString s.totalProblems ++ "\n\n")]

/-- The reports on several scans, each above a line, and their summary. -/
def reportMany (r : ConsoleReporter) (scans : List FileScan) (s : ScanSummary) :
    List Fragment :=
  (scans.flatMap fun scan => r.report scan ++ [plain (times 60 "─" ++ "\n")]) ++ summary s

end ConsoleReporter
end Neatness
