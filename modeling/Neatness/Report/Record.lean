import Neatness.FileScan
import Neatness.IssueReport
import Neatness.Json.Parse
import Neatness.Json.Record
import Neatness.Json.Write
import Neatness.Status

/-!
# Results as JSON

Results, views and reports have a JSON form for other programs, with the members in a fixed order,
and results and views can be read back from it.  In a scanned file the path and the result are
members of one object; such an object is not written as a list, it has to be sound as a whole, and
the rules in it may be written as names with an empty object.
-/

namespace Neatness

open Json (Field)

namespace Location

def toJson (l : Location) : Json :=
  .record [("line", .nat l.line), ("column", .nat l.column)]

def fields : List Field :=
  [⟨"line", .never⟩, ⟨"column", .never⟩]

/-- Read a location; its numbers have at most 64 bits. -/
def ofJson? (v : Json) : Option Location := do
  match ← v.slots? fields false with
  | [line, column] =>
    let number := Json.must (Json.natBelow? 0x10000000000000000)
    return ⟨← number line, ← number column⟩
  | _ => none

end Location

namespace Problem

def toJson (p : Problem) : Json :=
  .record [("rule", .text p.rule.name), ("message", .text p.message),
    ("deduction", .nat p.deduction.toNat), ("location", p.location.toJson)]

def fields : List Field :=
  [⟨"rule", .never⟩, ⟨"message", .never⟩, ⟨"deduction", .never⟩, ⟨"location", .never⟩]

/-- Read a problem; `name?` reads the name of its rule. -/
def ofJson? (name? : Json → Option String) (v : Json) : Option Problem := do
  match ← v.slots? fields false with
  | [rule, message, deduction, location] =>
    return {
      rule := ← Json.must (fun v => (name? v).bind Rule.ofName?) rule
      message := ← Json.must Json.text? message
      deduction := ← Json.must Json.byte? deduction
      location := ← Json.must Location.ofJson? location }
  | _ => none

end Problem

namespace ScanResult

def members (r : ScanResult) : List (String × Json) :=
  [("score", .nat r.score.toNat), ("fatal", .bool r.fatal),
    ("problems", .arr (r.problems.map Problem.toJson))]

def toJson (r : ScanResult) : Json :=
  .record r.members

def fields : List Field :=
  [⟨"score", .never⟩, ⟨"fatal", .never⟩, ⟨"problems", .never⟩]

/-- A result from the slots of its parts; `name?` reads the names of rules. -/
def ofSlots? (name? : Json → Option String) (score fatal problems : Option Json) :
    Option ScanResult := do
  return {
    score := ← Json.must Json.byte? score
    fatal := ← Json.must Json.flag? fatal
    problems := ← Json.must (Json.listOf? (Problem.ofJson? name?)) problems }

def ofJson? (v : Json) : Option ScanResult := do
  match ← v.slots? fields false with
  | [score, fatal, problems] => ofSlots? Json.variant? score fatal problems
  | _ => none

end ScanResult

namespace FileScan

/-- The members of the JSON form, if the path is text. -/
def members? (s : FileScan) : Option (List (String × Json)) :=
  s.path.text?.map fun path => ("filePath", .text path) :: s.result.members

/-- The parts of a scanned file. -/
def fields : List Field :=
  ⟨"filePath", .never⟩ :: ScanResult.fields

def ofJson? (v : Json) : Option FileScan :=
  match v with
  | .obj members =>
    if v.isSound then do
      match ← Json.slots? fields false (.obj members) with
      | [path, score, fatal, problems] =>
        return ⟨Path.ofText (← Json.must Json.text? path),
          ← ScanResult.ofSlots? Json.innerVariant? score fatal problems⟩
      | _ => none
    else none
  | _ => none

end FileScan

namespace StatusView

/-- The JSON form; a missing icon is left out. -/
def toJson (v : StatusView) : Json :=
  .record ([("tier", .text v.tier.name), ("score", .nat v.score.toNat), ("text", .text v.text)] ++
    (match v.icon with
      | some icon => [("icon", .text icon)]
      | none => []) ++
    [("color", .text v.color), ("tooltip", .text v.tooltip)])

def fields : List Field :=
  [⟨"tier", .never⟩, ⟨"score", .never⟩, ⟨"text", .never⟩, ⟨"icon", .inObject⟩,
    ⟨"color", .never⟩, ⟨"tooltip", .never⟩]

def ofJson? (v : Json) : Option StatusView := do
  match ← v.slots? fields false with
  | [tier, score, text, icon, color, tooltip] =>
    return {
      tier := ← Json.must (fun v => v.variant?.bind Tier.ofName?) tier
      score := ← Json.must Json.byte? score
      text := ← Json.must Json.text? text
      icon := ← Json.may Json.text? icon
      color := ← Json.must Json.text? color
      tooltip := ← Json.must Json.text? tooltip }
  | _ => none

end StatusView

/-- The JSON form of a report on demand. -/
def IssueReport.toJson : IssueReport → Json
  | .perfect message => .record [("kind", .text "perfect"), ("message", .text message)]
  | .issues header items =>
    .record [("kind", .text "issues"), ("header", .text header),
      ("items", .arr (items.map Json.text))]

def ScanSummary.toJson (s : ScanSummary) : Json :=
  .record [("filesScanned", .nat s.filesScanned), ("averageScore", .nat s.averageScore.toNat),
    ("perfectFiles", .nat s.perfectFiles), ("fatalFiles", .nat s.fatalFiles),
    ("totalProblems", .nat s.totalProblems)]

/-! ## Report texts -/

/-- A report for other programs. -/
structure JsonReporter where
  presenter : Presenter := {}
  layout : Json.Layout := .compact
deriving DecidableEq, Repr

namespace JsonReporter

/-- The JSON form of a scan with its status. -/
def entry? (r : JsonReporter) (s : FileScan) : Option Json :=
  s.members?.map fun members =>
    .record (members ++ [("status", (r.presenter.present s.result).toJson)])

/-- The text of a form; a path that is no text leaves an empty object. -/
def write (r : JsonReporter) (form : Option Json) : String :=
  (form.getD (.obj [])).write r.layout

def report (r : JsonReporter) (s : FileScan) : String :=
  r.write (r.entry? s)

def reportMany (r : JsonReporter) (scans : List FileScan) (summary : ScanSummary) : String :=
  r.write ((scans.mapM r.entry?).map fun entries =>
    .record [("results", .arr entries), ("summary", summary.toJson)])

end JsonReporter
end Neatness
