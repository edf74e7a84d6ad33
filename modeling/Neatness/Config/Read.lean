import Neatness.Config.Basic
import Neatness.Json.Parse
import Neatness.Json.Record

/-!
# Reading configurations

A configuration is a JSON record.  A rule's setting is the word `on` or `off`, or a strict record
of the parts to change; it has to be sound as a whole.  Of several settings under one name the last
one counts.
-/

namespace Neatness

open Json (Field)

def Preset.ofJson? (v : Json) : Option Preset :=
  v.variant?.bind Preset.ofName?

namespace RuleSetting

def toggleOfJson? (v : Json) : Option RuleSetting :=
  match v.variant? with
  | some "on" => some (.toggle true)
  | some "off" => some (.toggle false)
  | _ => none

/-- The parts of a rule that a record changes. -/
def customFields : List Field :=
  [⟨"penalty", .anywhere⟩, ⟨"fatal", .anywhere⟩, ⟨"enabled", .anywhere⟩]

/-- A record of parts to change. -/
def customOfJson? (v : Json) : Option RuleSetting := do
  match ← v.slots? customFields true with
  | [penalty, fatal, enabled] =>
    return .custom (← Json.may Json.byte? penalty) (← Json.may Json.flag? fatal)
      (← Json.may Json.flag? enabled)
  | _ => none

def ofJson? (v : Json) : Option RuleSetting :=
  if v.isSound then (toggleOfJson? v).or (customOfJson? v) else none

end RuleSetting

def RuleMap.ofJson? : Json → Option RuleMap
  | .obj members => do
    let members ← Json.named? members
    let settings ← members.mapM fun m => (RuleSetting.ofJson? m.2).map (m.1, ·)
    return RuleMap.ofList settings
  | _ => none

namespace Override

def fields : List Field :=
  [⟨"files", .never⟩, ⟨"studentName", .anywhere⟩, ⟨"rules", .anywhere⟩]

def ofJson? (v : Json) : Option Override := do
  match ← v.slots? fields false with
  | [files, studentName, rules] =>
    return {
      files := ← Json.must (Json.listOf? Json.text?) files
      studentName := ← Json.may Json.text? studentName
      rules := ← Json.orElse .empty RuleMap.ofJson? rules }
  | _ => none

end Override

namespace Config

def fields : List Field :=
  ["extends", "studentName", "preset", "warnThreshold", "threshold", "exceptPass", "rules",
    "ignore", "extensions", "overrides"].map fun name => ⟨name, .anywhere⟩

def ofJson? (v : Json) : Option Config := do
  match ← v.slots? fields false with
  | [base, studentName, preset, warnThreshold, threshold, exceptPass, rules, ignore, extensions,
      overrides] =>
    return {
      base := ← Json.may Json.text? base
      studentName := ← Json.may Json.text? studentName
      preset := ← Json.may Preset.ofJson? preset
      warnThreshold := ← Json.may Json.byte? warnThreshold
      threshold := ← Json.may Json.byte? threshold
      exceptPass := ← Json.may Json.flag? exceptPass
      rules := ← Json.orElse .empty RuleMap.ofJson? rules
      ignore := ← Json.orElse [] (Json.listOf? Json.text?) ignore
      extensions := ← Json.orElse [] (Json.listOf? Json.text?) extensions
      overrides := ← Json.orElse [] (Json.listOf? Override.ofJson?) overrides }
  | _ => none

def parse (text : String) : Option Config :=
  (Json.parse text).bind ofJson?

end Config
end Neatness
