import Neatness.ScanResult

/-!
# The status of a document

A status bar shows one of three tiers: a perfect score, a passable one, or a blocked submission.
`Presenter` decides between them with a threshold, and the view holds everything that is drawn.
-/

namespace Neatness

/-- How a document is judged. -/
inductive Tier where
  | success
  | warning
  | failure
deriving DecidableEq, Repr

namespace Tier

def name : Tier → String
  | success => "success"
  | warning => "warning"
  | failure => "failure"

def ofName? (s : String) : Option Tier :=
  [success, warning, failure].find? fun t => t.name == s

def color : Tier → String
  | success => "#50fa7b"
  | warning => "#ffb86c"
  | failure => "#ff5555"

def icon? : Tier → Option String
  | success => some "verified"
  | warning => none
  | failure => some "alert"

def tooltip : Tier → String
  | success => "Ready to Submit!"
  | warning => "Passable, but clean it up. Click for details."
  | failure => "Submission BLOCKED. Click for details."

def text (t : Tier) (score : UInt8) : String :=
  match t with
  | warning => "Grade: " ++ toString score.toNat ++ "/100"
  | _ => "Grade: " ++ toString score.toNat

@[simp] theorem ofName?_name (t : Tier) : ofName? t.name = some t := by
  cases t <;> decide

end Tier

/-- Everything that is drawn for a document. -/
structure StatusView where
  tier : Tier
  score : UInt8
  /-- The text, without the icon. -/
  text : String
  icon : Option String
  color : String
  tooltip : String
deriving DecidableEq, Repr

/-- The text with the icon in front, in the notation of editors. -/
def StatusView.label (v : StatusView) : String :=
  match v.icon with
  | some icon => "$(" ++ icon ++ ") " ++ v.text
  | none => v.text

/-- Judges results by a threshold. -/
structure Presenter where
  warnThreshold : UInt8 := 50
deriving DecidableEq, Repr

namespace Presenter

def tier (p : Presenter) (r : ScanResult) : Tier :=
  if r.isPerfect then .success
  else if r.fatal || r.score < p.warnThreshold then .failure
  else .warning

def present (p : Presenter) (r : ScanResult) : StatusView :=
  let tier := p.tier r
  { tier
    score := r.score
    text := tier.text r.score
    icon := tier.icon?
    color := tier.color
    tooltip := tier.tooltip }

end Presenter
end Neatness
