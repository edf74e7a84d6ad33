import Mathlib.Data.List.Basic
import Neatness.Proofs.Analysis

/-!
# Rules do not disturb one another

A scan can be read rule by rule: every rule has a check, and the rule is charged when it is enabled
and its check detects it.  What a check detects depends on little of a table, so two scans of one
text agree on a rule as soon as they agree on that little.

* `detection?` is what the check of a rule detects, and `charged?` the problem that comes of it.
* `problemsOf_eq_filterMap` says that a scan charges rule by rule.
* `RuleTable.AgreesOn` is what two scans have to share for a rule, and `charged?_of_agreesOn` that
  this is enough.
* `charged?_setEnabled_self` and `charged?_setEnabled_of_ne` switch a rule off.  The two rules on
  prints share one check, so that a print in a loop becomes a plain one when prints in loops are
  switched off (`charged?_debugPrint_setEnabled`).
-/

namespace Neatness

/-- The problem that a scan charges under a rule, if it charges one. -/
def ScanResult.problem? (r : ScanResult) (rule : Rule) : Option Problem :=
  r.problems.find? fun p => p.rule == rule

/-! ## Rule by rule -/

/-- What the check of a rule detects.  The two rules on prints have one check. -/
def detection? (table : RuleTable) (text name : List Char) : Rule → Option Detection
  | .absolutePath => AbsolutePath.check text
  | .debugPrint | .debugPrintInLoop =>
    DebugPrint.check (table.isEnabled .debugPrint) (table.isEnabled .debugPrintInLoop) text
  | .unresolvedMarker => UnresolvedMarker.check text
  | .emptyErrorHandler => EmptyHandler.check table.exceptPass text
  | .deepIndentation => DeepIndentation.check text
  | .missingHeader => MissingHeader.check name text

/-- A detection, charged by a table. -/
def Detection.charge (table : RuleTable) (text : List Char) (d : Detection) : Problem :=
  ⟨d.rule, d.message, (table.entry d.rule).penalty, Location.ofOffset text d.offset⟩

/-- The problem that is charged under a rule. -/
def charged? (table : RuleTable) (text name : List Char) (rule : Rule) : Option Problem :=
  if table.isEnabled rule then
    ((detection? table text name rule).filter fun d => d.rule == rule).map
      (Detection.charge table text)
  else none

section RuleByRule

variable {table : RuleTable} {text name : List Char} {rule : Rule}

/-- A check runs for each of its rules. -/
theorem run_eq_detection? {check : Check} (hcheck : check ∈ checks table)
    (hrule : rule ∈ check.rules) : check.run text name = detection? table text name rule := by
  simp only [checks, List.mem_cons, List.not_mem_nil, or_false] at hcheck
  rcases hcheck with rfl | rfl | rfl | rfl | rfl | rfl
  all_goals simp only [List.mem_cons, List.not_mem_nil, or_false] at hrule
  · subst hrule
    rfl
  · rcases hrule with rfl | rfl <;> rfl
  · subst hrule
    rfl
  · subst hrule
    rfl
  · subst hrule
    rfl
  · subst hrule
    rfl

theorem charged?_eq_some_iff {p : Problem} :
    charged? table text name rule = some p ↔
      table.isEnabled rule = true ∧ ∃ d, detection? table text name rule = some d ∧
        d.rule = rule ∧ p = d.charge table text := by
  unfold charged?
  by_cases henabled : table.isEnabled rule = true
  · simp only [henabled, if_true, Option.map_eq_some_iff, Option.filter_eq_some_iff, beq_iff_eq,
      and_assoc, true_and]
    constructor
    · rintro ⟨d, hd, hrule, rfl⟩
      exact ⟨d, hd, hrule, rfl⟩
    · rintro ⟨d, hd, hrule, rfl⟩
      exact ⟨d, hd, hrule, rfl⟩
  · simp [henabled]

theorem rule_of_charged? {p : Problem} (h : charged? table text name rule = some p) :
    p.rule = rule := by
  obtain ⟨-, d, -, hrule, rfl⟩ := charged?_eq_some_iff.1 h
  exact hrule

/-- A check is about one rule, or about the two rules on prints. -/
theorem rules_of_check {check : Check} (hcheck : check ∈ checks table) :
    (∃ rule, check.rules = [rule]) ∨ check.rules = [.debugPrint, .debugPrintInLoop] := by
  simp only [checks, List.mem_cons, List.not_mem_nil, or_false] at hcheck
  rcases hcheck with rfl | rfl | rfl | rfl | rfl | rfl
  · exact .inl ⟨_, rfl⟩
  · exact .inr rfl
  · exact .inl ⟨_, rfl⟩
  · exact .inl ⟨_, rfl⟩
  · exact .inl ⟨_, rfl⟩
  · exact .inl ⟨_, rfl⟩

/-- Under a rule of a check the table charges what the check detects, if it is about this rule. -/
theorem charged?_of_run {check : Check} (hcheck : check ∈ checks table)
    (hrule : rule ∈ check.rules) {d : Detection} (hrun : check.run text name = some d) :
    charged? table text name rule =
      if d.rule = rule ∧ table.isEnabled rule then some (d.charge table text) else none := by
  unfold charged?
  rw [← run_eq_detection? hcheck hrule, hrun]
  by_cases hd : d.rule = rule <;> by_cases henabled : table.isEnabled rule = true <;>
    simp [hd, henabled]

/-- A check charges what is charged under its rules. -/
theorem toList_problem? {check : Check} (hcheck : check ∈ checks table) :
    (check.problem? table text name).toList =
      check.rules.filterMap (charged? table text name) := by
  cases hrun : check.run text name with
  | none =>
      have hnone : ∀ rule ∈ check.rules, charged? table text name rule = none := by
        intro rule hrule
        simp [charged?, ← run_eq_detection? hcheck hrule, hrun]
      rw [List.filterMap_eq_nil_iff.2 hnone, Check.problem?]
      simp [hrun]
  | some d =>
      have hmem : d.rule ∈ check.rules := rule_mem_of_run hcheck hrun
      have hproblem : check.problem? table text name =
          if table.isEnabled d.rule then some (d.charge table text) else none := by
        unfold Check.problem?
        by_cases henabled : table.isEnabled d.rule = true
        · have hany : check.rules.any table.isEnabled = true :=
            List.any_eq_true.2 ⟨d.rule, hmem, henabled⟩
          simp [hany, hrun, henabled, Detection.charge]
        · simp [hrun, henabled]
      rw [hproblem, List.filterMap_congr fun rule hrule => charged?_of_run hcheck hrule hrun]
      rcases rules_of_check hcheck with ⟨rule, hrules⟩ | hrules
      · rw [hrules] at hmem ⊢
        obtain rfl := List.mem_singleton.1 hmem
        by_cases henabled : table.isEnabled d.rule = true <;> simp [henabled]
      · rw [hrules] at hmem ⊢
        simp only [List.mem_cons, List.not_mem_nil, or_false] at hmem
        rcases hmem with hd | hd <;> by_cases henabled : table.isEnabled d.rule = true <;>
          simp_all

/-- A scan charges rule by rule. -/
theorem problemsOf_eq_filterMap (table : RuleTable) (text name : List Char) :
    problemsOf table text name = Rule.all.filterMap (charged? table text name) := by
  rw [← flatMap_rules_checks table, List.filterMap_flatMap, problemsOf,
    List.filterMap_eq_flatMap_toList]
  exact List.flatMap_congr fun check hcheck => toList_problem? hcheck

theorem mem_problemsOf_iff {p : Problem} :
    p ∈ problemsOf table text name ↔ charged? table text name p.rule = some p := by
  rw [problemsOf_eq_filterMap, List.mem_filterMap]
  constructor
  · rintro ⟨rule, -, hp⟩
    rwa [rule_of_charged? hp]
  · intro hp
    exact ⟨p.rule, Rule.mem_all _, hp⟩

end RuleByRule

/-- The problem under a rule is the one that is charged under it. -/
theorem problem?_analyze (table : RuleTable) (text name : String) (rule : Rule) :
    (analyze table text name).problem? rule = charged? table text.toList name.toList rule := by
  have hproblems : (analyze table text name).problems =
      problemsOf table text.toList name.toList := rfl
  unfold ScanResult.problem?
  rw [hproblems]
  cases hfind : (problemsOf table text.toList name.toList).find? fun p => p.rule == rule with
  | some p =>
      have hrule : p.rule = rule := by simpa using List.find?_some hfind
      rw [← hrule]
      exact (mem_problemsOf_iff.1 (List.mem_of_find?_eq_some hfind)).symm
  | none =>
      cases hcharged : charged? table text.toList name.toList rule with
      | none => rfl
      | some p =>
          have hrule := rule_of_charged? hcharged
          have hmem : p ∈ problemsOf table text.toList name.toList :=
            mem_problemsOf_iff.2 (by rwa [hrule])
          have hno := List.find?_eq_none.1 hfind p hmem
          simp [hrule] at hno

/-- A rule is reported exactly if it is charged. -/
theorem hasRule_analyze_iff {table : RuleTable} {text name : String} {rule : Rule} :
    (analyze table text name).hasRule rule = true ↔
      ∃ p, charged? table text.toList name.toList rule = some p := by
  rw [← problem?_analyze]
  simp [ScanResult.hasRule, ScanResult.problem?, ← Option.isSome_iff_exists]

/-! ## The two rules on prints -/

namespace DebugPrint

variable {text : List Char}

/-- A text without prints has no print in a loop. -/
theorem inLoop?_of_starts_nil (h : starts text = []) : inLoop? text = none := by
  unfold inLoop?
  rw [h]
  cases text with
  | nil => rfl
  | cons c cs => rfl

/-- The check reports the first print in a loop if it is asked for such prints. -/
theorem filter_check_inLoop (reportPlain reportLoop : Bool) (text : List Char) :
    ((check reportPlain reportLoop text).filter fun d => d.rule == .debugPrintInLoop) =
      if reportLoop then (inLoop? text).map fun offset => ⟨.debugPrintInLoop, offset, loopMessage⟩
      else none := by
  unfold check
  cases hstarts : starts text with
  | nil => simp [inLoop?_of_starts_nil hstarts]
  | cons offset later =>
      cases reportLoop with
      | false => cases reportPlain <;> simp
      | true => cases inLoop? text <;> cases reportPlain <;> simp

/-- The check reports the first print as a plain one if it is asked for plain prints and has not
found one in a loop. -/
theorem filter_check_plain (reportPlain reportLoop : Bool) (text : List Char) :
    ((check reportPlain reportLoop text).filter fun d => d.rule == .debugPrint) =
      if reportPlain ∧ (reportLoop → inLoop? text = none) then
        (starts text).head?.map fun offset => ⟨.debugPrint, offset, message⟩
      else none := by
  unfold check
  cases hstarts : starts text with
  | nil => simp
  | cons offset later =>
      cases reportLoop with
      | false => cases reportPlain <;> simp
      | true => cases inLoop? text <;> cases reportPlain <;> simp

end DebugPrint

section Prints

variable (t : RuleTable) (text name : List Char)

/-- The first print of a text as a plain print, charged by a table. -/
def plainPrint? : Option Problem :=
  (DebugPrint.starts text).head?.map fun offset =>
    ⟨.debugPrint, DebugPrint.message, (t.entry .debugPrint).penalty, Location.ofOffset text offset⟩

/-- The first print in a loop is charged whenever such prints are. -/
theorem charged?_debugPrintInLoop :
    charged? t text name .debugPrintInLoop =
      if t.isEnabled .debugPrintInLoop then
        (DebugPrint.inLoop? text).map fun offset =>
          ⟨.debugPrintInLoop, DebugPrint.loopMessage, (t.entry .debugPrintInLoop).penalty,
            Location.ofOffset text offset⟩
      else none := by
  unfold charged?
  by_cases hloop : t.isEnabled .debugPrintInLoop = true
  · rw [if_pos hloop, if_pos hloop, detection?, DebugPrint.filter_check_inLoop, if_pos hloop,
      Option.map_map]
    rfl
  · rw [if_neg hloop, if_neg hloop]

/-- The first print is charged as a plain one unless one in a loop is charged. -/
theorem charged?_debugPrint :
    charged? t text name .debugPrint =
      if t.isEnabled .debugPrint ∧ charged? t text name .debugPrintInLoop = none then
        plainPrint? t text
      else none := by
  have hiff : charged? t text name .debugPrintInLoop = none ↔
      (t.isEnabled .debugPrintInLoop = true → DebugPrint.inLoop? text = none) := by
    rw [charged?_debugPrintInLoop]
    by_cases hloop : t.isEnabled .debugPrintInLoop = true <;> simp [hloop]
  unfold charged? at hiff ⊢
  by_cases hplain : t.isEnabled .debugPrint = true
  · rw [if_pos hplain, detection?, DebugPrint.filter_check_plain]
    simp only [hplain, true_and, hiff]
    split
    · rw [Option.map_map]
      rfl
    · rfl
  · simp [hplain]

end Prints

/-! ## Two scans of one text -/

/-- Two tables, each with a name to look for, share all that the check of a rule depends on. -/
def RuleTable.AgreesOn (t u : RuleTable) (m n : List Char) : Rule → Prop
  | .debugPrint | .debugPrintInLoop =>
    t.isEnabled .debugPrint = u.isEnabled .debugPrint ∧
      t.isEnabled .debugPrintInLoop = u.isEnabled .debugPrintInLoop
  | .emptyErrorHandler =>
    t.isEnabled .emptyErrorHandler = u.isEnabled .emptyErrorHandler ∧ t.exceptPass = u.exceptPass
  | .missingHeader =>
    t.isEnabled .missingHeader = u.isEnabled .missingHeader ∧
      Text.trim m = Text.trim n
  | rule => t.isEnabled rule = u.isEnabled rule

section TwoScans

variable {t u : RuleTable} {m n : List Char} {rule : Rule}

theorem RuleTable.AgreesOn.isEnabled_eq (h : t.AgreesOn u m n rule) :
    t.isEnabled rule = u.isEnabled rule := by
  cases rule with
  | absolutePath => exact h
  | debugPrint => exact h.1
  | debugPrintInLoop => exact h.2
  | unresolvedMarker => exact h
  | emptyErrorHandler => exact h.1
  | deepIndentation => exact h
  | missingHeader => exact h.1

/-- The check of the header looks at the name without the blanks around it. -/
theorem MissingHeader.check_congr (h : Text.trim m = Text.trim n)
    (text : List Char) : check m text = check n text := by
  unfold check
  rw [h]

theorem RuleTable.AgreesOn.detection?_eq (h : t.AgreesOn u m n rule) (text : List Char) :
    detection? t text m rule = detection? u text n rule := by
  cases rule with
  | absolutePath => rfl
  | debugPrint => simp only [detection?, h.1, h.2]
  | debugPrintInLoop => simp only [detection?, h.1, h.2]
  | unresolvedMarker => rfl
  | emptyErrorHandler => simp only [detection?, h.2]
  | deepIndentation => rfl
  | missingHeader => exact MissingHeader.check_congr h.2 text

/-- Tables that agree on a rule charge the same problem under it, each at its own price. -/
theorem charged?_of_agreesOn (h : t.AgreesOn u m n rule) (text : List Char) :
    charged? t text m rule =
      (charged? u text n rule).map fun p =>
        { p with deduction := (t.entry rule).penalty } := by
  unfold charged?
  rw [h.isEnabled_eq, h.detection?_eq]
  by_cases henabled : u.isEnabled rule = true
  · rw [if_pos henabled, if_pos henabled, Option.map_map]
    apply Option.map_congr
    intro d hd
    have hrule : d.rule = rule := by simpa using (Option.filter_eq_some_iff.1 hd).2
    simp [Detection.charge, hrule]
  · rw [if_neg henabled, if_neg henabled]
    rfl

end TwoScans

/-! ## Switching a rule off -/

section SwitchingOff

variable {t : RuleTable} {text name : List Char} {rule other : Rule}

theorem RuleTable.isEnabled_setEnabled (t : RuleTable) (rule other : Rule) (on : Bool) :
    (t.setEnabled rule on).isEnabled other = if other = rule then on else t.isEnabled other := by
  unfold setEnabled isEnabled
  rw [entry_modify]
  split <;> rfl

theorem RuleTable.penalty_setEnabled (t : RuleTable) (rule other : Rule) (on : Bool) :
    ((t.setEnabled rule on).entry other).penalty = (t.entry other).penalty := by
  unfold setEnabled
  rw [entry_modify]
  split <;> rfl

@[simp] theorem RuleTable.exceptPass_setEnabled (t : RuleTable) (rule : Rule) (on : Bool) :
    (t.setEnabled rule on).exceptPass = t.exceptPass := rfl

/-- A rule that is switched off is not charged. -/
theorem charged?_setEnabled_self (t : RuleTable) (text name : List Char) (rule : Rule) :
    charged? (t.setEnabled rule false) text name rule = none := by
  simp [charged?, RuleTable.isEnabled_setEnabled]

/-- Switching off a rule changes nothing under another one, except that plain prints depend on
whether prints in loops are told apart. -/
theorem charged?_setEnabled_of_ne (hne : other ≠ rule)
    (hprints : rule = .debugPrintInLoop → other ≠ .debugPrint) :
    charged? (t.setEnabled rule false) text name other = charged? t text name other := by
  have henabled : (t.setEnabled rule false).isEnabled other = t.isEnabled other := by
    rw [RuleTable.isEnabled_setEnabled, if_neg hne]
  have hpenalty := t.penalty_setEnabled rule other false
  by_cases hother : other = .debugPrint ∨ other = .debugPrintInLoop
  · -- Under a plain print the switched rule is neither of the two, so their check is the same.
    rcases hother with rfl | rfl
    · have hrule : Rule.debugPrintInLoop ≠ rule := fun h => hprints h.symm rfl
      simp only [charged?_debugPrint, charged?_debugPrintInLoop, plainPrint?,
        RuleTable.isEnabled_setEnabled, if_neg hne, if_neg hrule, RuleTable.penalty_setEnabled]
    · simp only [charged?_debugPrintInLoop, henabled, hpenalty]
  · have hdetection : detection? (t.setEnabled rule false) text name other =
        detection? t text name other := by
      cases other with
      | debugPrint => exact absurd (.inl rfl) hother
      | debugPrintInLoop => exact absurd (.inr rfl) hother
      | _ => rfl
    unfold charged?
    rw [henabled, hdetection]
    congr 1
    apply Option.map_congr
    intro d hd
    have hd' : d.rule = other := by simpa using (Option.filter_eq_some_iff.1 hd).2
    rw [Detection.charge, Detection.charge, hd', hpenalty]

/-- With prints in loops switched off, the first print is charged as a plain one. -/
theorem charged?_debugPrint_setEnabled (t : RuleTable) (text name : List Char) :
    charged? (t.setEnabled .debugPrintInLoop false) text name .debugPrint =
      if t.isEnabled .debugPrint then plainPrint? t text else none := by
  rw [charged?_debugPrint, charged?_setEnabled_self]
  simp [RuleTable.isEnabled_setEnabled, plainPrint?, RuleTable.penalty_setEnabled]

/-- Switching off any rule but the one on prints in loops takes its problem away and leaves the
others alone. -/
theorem problemsOf_setEnabled (hrule : rule ≠ .debugPrintInLoop) :
    problemsOf (t.setEnabled rule false) text name =
      (problemsOf t text name).filter fun p => p.rule != rule := by
  rw [problemsOf_eq_filterMap, problemsOf_eq_filterMap, List.filter_filterMap]
  apply List.filterMap_congr
  intro other _
  by_cases hother : other = rule
  · subst hother
    rw [charged?_setEnabled_self]
    cases hcharged : charged? t text name other with
    | none => rfl
    | some p => simp [Option.filter_some, rule_of_charged? hcharged]
  · rw [charged?_setEnabled_of_ne hother fun h => absurd h hrule]
    cases hcharged : charged? t text name other with
    | none => rfl
    | some p => simp [Option.filter_some, rule_of_charged? hcharged, hother]

/-- Switching off the rule on prints in loops changes nothing when none is charged. -/
theorem problemsOf_setEnabled_inLoop_of_none
    (h : charged? t text name .debugPrintInLoop = none) :
    problemsOf (t.setEnabled .debugPrintInLoop false) text name = problemsOf t text name := by
  rw [problemsOf_eq_filterMap, problemsOf_eq_filterMap]
  apply List.filterMap_congr
  intro other _
  by_cases hother : other = .debugPrint
  · subst hother
    rw [charged?_debugPrint_setEnabled, charged?_debugPrint]
    simp [h]
  · by_cases hloop : other = .debugPrintInLoop
    · subst hloop
      rw [h, charged?_setEnabled_self]
    · exact charged?_setEnabled_of_ne hloop fun _ => hother

/-- A print in a loop that is charged becomes a plain print in its place, or goes away, when prints
in loops are switched off. -/
theorem problemsOf_setEnabled_inLoop_of_some {p : Problem}
    (h : charged? t text name .debugPrintInLoop = some p) :
    problemsOf (t.setEnabled .debugPrintInLoop false) text name =
      (problemsOf t text name).flatMap fun q =>
        if q.rule = .debugPrintInLoop then
          if t.isEnabled .debugPrint then (plainPrint? t text).toList else []
        else [q] := by
  let replace : Problem → List Problem := fun q =>
    if q.rule = .debugPrintInLoop then
      if t.isEnabled .debugPrint then (plainPrint? t text).toList else []
    else [q]
  show _ = (problemsOf t text name).flatMap replace
  have hkept : ∀ other : Rule, other ≠ .debugPrint → other ≠ .debugPrintInLoop →
      (charged? (t.setEnabled .debugPrintInLoop false) text name other).toList =
        (charged? t text name other).toList.flatMap replace := by
    intro other hplain hloop
    rw [charged?_setEnabled_of_ne hloop fun _ => hplain]
    cases hcharged : charged? t text name other with
    | none => rfl
    | some q => simp [replace, rule_of_charged? hcharged, hloop]
  have hplain : charged? t text name .debugPrint = none := by
    rw [charged?_debugPrint]
    simp [h]
  rw [problemsOf_eq_filterMap, problemsOf_eq_filterMap, List.filterMap_eq_flatMap_toList,
    List.filterMap_eq_flatMap_toList, List.flatMap_assoc]
  have hrest := List.flatMap_congr (l := Rule.all.drop 3) fun other hother =>
    hkept other (by rintro rfl; exact absurd hother (by decide))
      (by rintro rfl; exact absurd hother (by decide))
  have hp : replace p = if t.isEnabled .debugPrint then (plainPrint? t text).toList else [] := by
    simp [replace, rule_of_charged? h]
  -- The plain print is charged under the rule before the one whose place it takes.
  show (Rule.absolutePath :: .debugPrint :: .debugPrintInLoop :: Rule.all.drop 3).flatMap _ =
    (Rule.absolutePath :: .debugPrint :: .debugPrintInLoop :: Rule.all.drop 3).flatMap _
  simp only [List.flatMap_cons]
  rw [hkept .absolutePath (by decide) (by decide), charged?_debugPrint_setEnabled,
    charged?_setEnabled_self, hplain, h, hrest]
  by_cases henabled : t.isEnabled .debugPrint = true <;> simp [hp, henabled]

end SwitchingOff

/-- A text that has a print in a loop has a first print. -/
theorem exists_first_of_inLoop {t : RuleTable} {text name : List Char} {p : Problem}
    (h : charged? t text name .debugPrintInLoop = some p) :
    ∃ first, (DebugPrint.starts text).head? = some first := by
  cases hstarts : DebugPrint.starts text with
  | nil =>
      rw [charged?_debugPrintInLoop, DebugPrint.inLoop?_of_starts_nil hstarts] at h
      simp at h
  | cons first later => exact ⟨first, rfl⟩

/-- Two scans of one text report the same under every rule on whose inputs they agree, each at the
price of its own table.  Switching off a rule takes exactly its problem away; only a print in a
loop becomes a plain print, at the first print of the text, if plain prints are charged. -/
theorem analyze_rulewise (text : String) :
    (∀ (t u : RuleTable) (m n : String) (rule : Rule), t.AgreesOn u m.toList n.toList rule →
      (analyze t text m).problem? rule =
        ((analyze u text n).problem? rule).map fun p =>
          { p with deduction := (t.entry rule).penalty }) ∧
    (∀ (t : RuleTable) (name : String) (rule : Rule), rule ≠ .debugPrintInLoop →
      (analyze (t.setEnabled rule false) text name).problems =
        (analyze t text name).problems.filter fun p => p.rule != rule) ∧
    (∀ (t : RuleTable) (name : String),
      (analyze t text name).hasRule .debugPrintInLoop = false →
      (analyze (t.setEnabled .debugPrintInLoop false) text name).problems =
        (analyze t text name).problems) ∧
    (∀ (t : RuleTable) (name : String),
      (analyze t text name).hasRule .debugPrintInLoop = true →
      ∃ first, (DebugPrint.starts text.toList).head? = some first ∧
        (analyze (t.setEnabled .debugPrintInLoop false) text name).problems =
          (analyze t text name).problems.flatMap fun p =>
            if p.rule = .debugPrintInLoop then
              if t.isEnabled .debugPrint then
                [⟨.debugPrint, DebugPrint.message, (t.entry .debugPrint).penalty,
                  Location.ofOffset text.toList first⟩]
              else []
            else [p]) := by
  refine ⟨?_, ?_, ?_, ?_⟩
  · intro t u m n rule hagree
    rw [problem?_analyze, problem?_analyze]
    exact charged?_of_agreesOn hagree text.toList
  · intro t name rule hrule
    exact problemsOf_setEnabled hrule
  · intro t name hno
    apply problemsOf_setEnabled_inLoop_of_none
    cases hcharged : charged? t text.toList name.toList .debugPrintInLoop with
    | none => rfl
    | some p => simp [hasRule_analyze_iff.2 ⟨p, hcharged⟩] at hno
  · intro t name hloop
    obtain ⟨p, hp⟩ := hasRule_analyze_iff.1 hloop
    obtain ⟨first, hfirst⟩ := exists_first_of_inLoop hp
    refine ⟨first, hfirst, ?_⟩
    have hplain : plainPrint? t text.toList =
        some ⟨.debugPrint, DebugPrint.message, (t.entry .debugPrint).penalty,
          Location.ofOffset text.toList first⟩ := by
      rw [plainPrint?, hfirst]
      rfl
    have hproblems := problemsOf_setEnabled_inLoop_of_some hp
    rw [hplain] at hproblems
    exact hproblems

/-- A loop that is not closed, with a print in it. -/
def loopText : String := "for \x7bputs"

/-- Two presets agree on the header of the text for two spellings of a name, and the print in the
loop becomes a plain print at the same place. -/
theorem analyze_rulewise_loopText :
    (analyze Preset.gentle.table loopText " A").problem? .missingHeader =
      ((analyze Preset.standard.table loopText "A").problem? .missingHeader).map (fun p =>
        { p with deduction := (Preset.gentle.table.entry .missingHeader).penalty }) ∧
    (analyze (Preset.standard.table.setEnabled .missingHeader false) loopText "A").problems =
      (analyze Preset.standard.table loopText "A").problems.filter
        (fun p => p.rule != .missingHeader) ∧
    (analyze (Preset.standard.table.setEnabled .debugPrintInLoop false) "puts" "").problems =
      (analyze Preset.standard.table "puts" "").problems ∧
    ((analyze Preset.standard.table loopText "").hasRule .debugPrintInLoop = true ∧
      (analyze (Preset.standard.table.setEnabled .debugPrintInLoop false) loopText "").problems =
        [⟨.debugPrint, DebugPrint.message, 10, ⟨1, 6⟩⟩]) := by
  obtain ⟨hagree, hoff, -, hloop⟩ := analyze_rulewise loopText
  have hinside : (analyze Preset.standard.table loopText "").hasRule .debugPrintInLoop = true := by
    decide +kernel
  have houtside : (analyze Preset.standard.table "puts" "").hasRule .debugPrintInLoop = false := by
    decide +kernel
  refine ⟨hagree _ _ " A" "A" .missingHeader ⟨rfl, by decide⟩, hoff _ "A" _ (by decide),
    (analyze_rulewise "puts").2.2.1 _ "" houtside, hinside, ?_⟩
  obtain ⟨first, hfirst, hproblems⟩ := hloop Preset.standard.table "" hinside
  have hfive : first = 5 := Option.some.inj (hfirst.symm.trans (by decide +kernel))
  subst hfive
  rw [hproblems]
  decide +kernel

end Neatness
