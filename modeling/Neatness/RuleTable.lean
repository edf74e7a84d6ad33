import Neatness.Rule

/-!
# Rule tables

What each rule costs.  A table gives every rule a penalty, says whether breaking it blocks a
submission outright, and whether it is checked at all; `exceptPass` says whether an idle `except`
clause counts as an empty handler.  `Preset` names the two tables that a configuration can start
from.

That every rule has one entry, in the order of checking, is carried by the type: a table is a
function of the rules, and `entries` writes it as a list.  Looking a rule up in the list finds its
entry (`lookup_entries`), and a change of one rule changes the list in the place of that rule
(`entries_modify`).
-/

namespace Neatness

/-- How a table treats one rule. -/
structure RuleEntry where
  penalty : UInt8
  /-- Breaking the rule blocks the submission. -/
  fatal : Bool
  enabled : Bool := true
deriving DecidableEq, Repr

/-- How every rule is treated. -/
structure RuleTable where
  entry : Rule → RuleEntry
  /-- An idle `except` clause counts as an empty handler. -/
  exceptPass : Bool := true

namespace RuleTable

/-- The table as a list, in the order of checking. -/
def entries (t : RuleTable) : List (Rule × RuleEntry) :=
  Rule.all.map fun r => (r, t.entry r)

def isEnabled (t : RuleTable) (r : Rule) : Bool :=
  (t.entry r).enabled

def modify (t : RuleTable) (r : Rule) (f : RuleEntry → RuleEntry) : RuleTable :=
  { t with entry := fun s => if s = r then f (t.entry s) else t.entry s }

def setPenalty (t : RuleTable) (r : Rule) (penalty : UInt8) : RuleTable :=
  t.modify r fun e => { e with penalty }

/-- Change whether a rule blocks. -/
def setFatal (t : RuleTable) (r : Rule) (fatal : Bool) : RuleTable :=
  t.modify r fun e => { e with fatal }

def setEnabled (t : RuleTable) (r : Rule) (enabled : Bool) : RuleTable :=
  t.modify r fun e => { e with enabled }

/-- Change whether idle `except` clauses count. -/
def setExceptPass (t : RuleTable) (exceptPass : Bool) : RuleTable :=
  { t with exceptPass }

@[ext] theorem ext {t u : RuleTable} (entry : ∀ r, t.entry r = u.entry r)
    (exceptPass : t.exceptPass = u.exceptPass) : t = u := by
  obtain ⟨e, p⟩ := t
  obtain ⟨f, q⟩ := u
  have : e = f := funext entry
  subst this
  simp_all

/-- Two tables are the same when their entries and their option are. -/
theorem eq_iff_entries {t u : RuleTable} :
    t = u ↔ t.entries = u.entries ∧ t.exceptPass = u.exceptPass := by
  constructor
  · rintro rfl
    exact ⟨rfl, rfl⟩
  · rintro ⟨entries, exceptPass⟩
    refine RuleTable.ext (fun r => ?_) exceptPass
    simp only [RuleTable.entries, List.map_inj_left, Prod.mk.injEq, true_and] at entries
    exact entries r (Rule.mem_all r)

/-- A table lists every rule once, in the order of checking. -/
theorem rules_entries (t : RuleTable) : t.entries.map Prod.fst = Rule.all := by
  rw [entries, List.map_map]
  exact List.map_id Rule.all

theorem lookup_entries (t : RuleTable) (r : Rule) : t.entries.lookup r = some (t.entry r) := by
  cases r <;> rfl

theorem entries_modify (t : RuleTable) (r : Rule) (f : RuleEntry → RuleEntry) :
    (t.modify r f).entries = t.entries.map fun (s, e) => (s, if s = r then f e else e) := by
  rw [entries, entries, List.map_map]
  rfl

instance : DecidableEq RuleTable := fun _ _ =>
  decidable_of_iff _ eq_iff_entries.symm

@[simp] theorem entry_modify (t : RuleTable) (r s : Rule) (f : RuleEntry → RuleEntry) :
    (t.modify r f).entry s = if s = r then f (t.entry s) else t.entry s := rfl

@[simp] theorem exceptPass_modify (t : RuleTable) (r : Rule) (f : RuleEntry → RuleEntry) :
    (t.modify r f).exceptPass = t.exceptPass := rfl

end RuleTable

/-- A named table to start from. -/
inductive Preset where
  | standard
  /-- Markers and empty handlers cost less, and a submission is blocked earlier. -/
  | gentle
deriving DecidableEq, Repr

namespace Preset

def name : Preset → String
  | standard => "standard"
  | gentle => "gentle"

def ofName? (s : String) : Option Preset :=
  [standard, gentle].find? fun p => p.name == s

def table (p : Preset) : RuleTable where
  entry
    | .absolutePath => ⟨40, true, true⟩
    | .debugPrint => ⟨10, false, true⟩
    | .debugPrintInLoop => ⟨25, false, true⟩
    | .unresolvedMarker => ⟨match p with | standard => 10 | gentle => 5, false, true⟩
    | .emptyErrorHandler => ⟨match p with | standard => 20 | gentle => 15, false, true⟩
    | .deepIndentation => ⟨10, false, true⟩
    | .missingHeader => ⟨5, false, true⟩

/-- Scores below this are blocked. -/
def warnThreshold : Preset → UInt8
  | standard => 50
  | gentle => 60

/-- A name in small letters, which is how presets are compared and quoted. -/
def fold (s : String) : String :=
  String.ofList (s.toList.map Char.toLower)

/-- A name that is no preset's. -/
structure Unknown where
  name : String
deriving DecidableEq, Repr

/-- What is said about an unknown preset. -/
def Unknown.message (e : Unknown) : String :=
  "unknown preset '" ++ e.name ++ "' (expected 'standard' or 'gentle')"

/-- The preset of a name that a person wrote, in any case. -/
def parse (s : String) : Except Unknown Preset :=
  match ofName? (fold s) with
  | some p => .ok p
  | none => .error ⟨fold s⟩

@[simp] theorem ofName?_name (p : Preset) : ofName? p.name = some p := by
  cases p <;> decide

end Preset
end Neatness
