import Mathlib.Algebra.Group.Int.Defs
import Neatness.Analyze

/-!
# The books of a scan

What a scan may charge.  The checks run in the order of the rules and watch disjoint sets of them,
and a check reports at most one of its own rules.  Everything here follows from these two facts.

* `RuleTable.Edit` and `Preset.edited` are the tables that setters can make out of a preset.
* `problem?_eq_some_iff` says when a check charges a problem, and which one.
* `rules_problemsOf_sublist` places the charged rules in the order of all rules.
* `problem_eq_of_same_check` is why the two rules on prints are never both charged.
* `Score.addWord?` adds points in a signed word of 32 bits, where the sum of a scan always fits.
* `ScanResult.Balances` collects what holds of every result.
-/

namespace Neatness

/-! ## Tables that setters reach -/

/-- One call of a setter. -/
inductive RuleTable.Edit where
  | penalty (rule : Rule) (points : UInt8)
  | fatal (rule : Rule) (on : Bool)
  | enabled (rule : Rule) (on : Bool)
  | exceptPass (on : Bool)

/-- The table after one call of a setter. -/
def RuleTable.edit (t : RuleTable) : RuleTable.Edit → RuleTable
  | .penalty rule points => t.setPenalty rule points
  | .fatal rule on => t.setFatal rule on
  | .enabled rule on => t.setEnabled rule on
  | .exceptPass on => t.setExceptPass on

/-- The table of a preset after calls of setters, the first one first. -/
def Preset.edited (p : Preset) (edits : List RuleTable.Edit) : RuleTable :=
  edits.foldl RuleTable.edit p.table

/-! ## What a check reports -/

namespace DebugPrint

/-- A print is reported under one of the two rules, and only under one that was asked for. -/
theorem rule_of_check {reportPlain reportLoop : Bool} {text : List Char} {d : Detection}
    (h : check reportPlain reportLoop text = some d) :
    (d.rule = .debugPrint ∧ reportPlain = true) ∨
      (d.rule = .debugPrintInLoop ∧ reportLoop = true) := by
  unfold check at h
  cases hstarts : starts text with
  | nil => simp [hstarts] at h
  | cons offset later =>
      cases hloop : (if reportLoop then inLoop? text else none) with
      | some inner =>
          have hreport : reportLoop = true := by
            cases reportLoop with
            | true => rfl
            | false => simp at hloop
          simp only [hstarts, hloop, Option.some.injEq] at h
          exact .inr ⟨h ▸ rfl, hreport⟩
      | none =>
          simp only [hstarts, hloop, Option.ite_none_right_eq_some, Option.some.injEq] at h
          exact .inl ⟨h.2 ▸ rfl, h.1⟩

end DebugPrint

/-- A check reports one of its own rules. -/
theorem rule_mem_of_run {table : RuleTable} {check : Check} (hcheck : check ∈ checks table)
    {text name : List Char} {d : Detection} (hrun : check.run text name = some d) :
    d.rule ∈ check.rules := by
  simp only [checks, List.mem_cons, List.not_mem_nil, or_false] at hcheck
  rcases hcheck with rfl | rfl | rfl | rfl | rfl | rfl
  · obtain ⟨offset, -, rfl⟩ := Option.map_eq_some_iff.1 hrun
    simp
  · rcases DebugPrint.rule_of_check hrun with ⟨hrule, -⟩ | ⟨hrule, -⟩ <;> simp [hrule]
  · obtain ⟨offset, -, rfl⟩ := Option.map_eq_some_iff.1 hrun
    simp
  · obtain ⟨offset, -, rfl⟩ := Option.map_eq_some_iff.1 hrun
    simp
  · obtain ⟨offset, -, rfl⟩ := Option.map_eq_some_iff.1 hrun
    simp
  · simp only [MissingHeader.check, Option.ite_none_left_eq_some, Option.some.injEq] at hrun
    simp [← hrun.2]

/-- A check charges what it detects, if the rule of the detection is enabled. -/
theorem problem?_eq_some_iff {table : RuleTable} {text name : List Char} {check : Check}
    (hcheck : check ∈ checks table) (p : Problem) :
    check.problem? table text name = some p ↔
      ∃ d, check.run text name = some d ∧ table.isEnabled d.rule = true ∧
        p = ⟨d.rule, d.message, (table.entry d.rule).penalty, Location.ofOffset text d.offset⟩ := by
  unfold Check.problem?
  cases hrun : check.run text name with
  | none => simp
  | some d =>
      have hmem := rule_mem_of_run hcheck hrun
      constructor
      · intro h
        simp only [Option.ite_none_right_eq_some, Option.some.injEq] at h
        exact ⟨d, rfl, h.2.1, h.2.2.symm⟩
      · rintro ⟨e, he, henabled, rfl⟩
        obtain rfl := Option.some.inj he
        -- The rule of the detection is one of the check's, so the check was not left out.
        have hany : check.rules.any table.isEnabled = true :=
          List.any_eq_true.2 ⟨d.rule, hmem, henabled⟩
        simp [hany, henabled]

theorem rule_mem_of_problem? {table : RuleTable} {text name : List Char} {check : Check}
    (hcheck : check ∈ checks table) {p : Problem}
    (hp : check.problem? table text name = some p) : p.rule ∈ check.rules := by
  obtain ⟨d, hrun, -, rfl⟩ := (problem?_eq_some_iff hcheck p).1 hp
  exact rule_mem_of_run hcheck hrun

/-! ## The order of the charges -/

/-- The rules of the checks, one check after the other, are all rules in their order. -/
theorem flatMap_rules_checks (table : RuleTable) :
    (checks table).flatMap (·.rules) = Rule.all := rfl

/-- No rule is watched by two checks. -/
theorem check_eq_of_mem_rules {table : RuleTable} {a b : Check} (ha : a ∈ checks table)
    (hb : b ∈ checks table) {r : Rule} (hra : r ∈ a.rules) (hrb : r ∈ b.rules) : a = b := by
  -- All rules in their order are distinct, so the lists of the checks have none in common.
  have hnodup : ((checks table).flatMap (·.rules)).Nodup := by
    rw [flatMap_rules_checks]
    decide
  obtain ⟨-, hdisjoint⟩ := List.pairwise_flatMap.1 hnodup
  have hsame : ∀ ⦃a⦄, a ∈ checks table → ∀ ⦃b⦄, b ∈ checks table →
      ∀ r ∈ a.rules, r ∈ b.rules → a = b := by
    apply List.Pairwise.forall_of_forall_of_flip
    · intro _ _ _ _ _
      rfl
    · exact hdisjoint.imp fun h r hr hr' => absurd rfl (h r hr r hr')
    · exact hdisjoint.imp fun h r hr hr' => absurd rfl (h r hr' r hr)
  exact hsame ha hb r hra hrb

/-- The problems that some of the checks charge are about rules of these checks, in their
order. -/
theorem rules_filterMap_sublist {table : RuleTable} {text name : List Char} {l : List Check}
    (hl : ∀ check ∈ l, check ∈ checks table) :
    ((l.filterMap (Check.problem? table text name)).map (·.rule)).Sublist
      (l.flatMap (·.rules)) := by
  induction l with
  | nil => simp
  | cons check rest ih =>
      have hrest := ih fun c hc => hl c (List.mem_cons_of_mem check hc)
      rw [List.flatMap_cons]
      cases hp : check.problem? table text name with
      | none =>
          rw [List.filterMap_cons_none hp]
          exact hrest.trans (List.sublist_append_right _ _)
      | some p =>
          have hmem := rule_mem_of_problem? (hl check List.mem_cons_self) hp
          rw [List.filterMap_cons_some hp, List.map_cons]
          exact (List.singleton_sublist.2 hmem).append hrest

/-- The charged rules stand in the order of all rules. -/
theorem rules_problemsOf_sublist (table : RuleTable) (text name : List Char) :
    ((problemsOf table text name).map (·.rule)).Sublist Rule.all := by
  rw [← flatMap_rules_checks table]
  exact rules_filterMap_sublist fun _ h => h

theorem length_problemsOf_le (table : RuleTable) (text name : List Char) :
    (problemsOf table text name).length ≤ 6 := by
  exact List.length_filterMap_le (Check.problem? table text name) (checks table)

theorem mem_problemsOf {table : RuleTable} {text name : List Char} {p : Problem} :
    p ∈ problemsOf table text name ↔
      ∃ check ∈ checks table, check.problem? table text name = some p :=
  List.mem_filterMap

/-- Two problems about rules of one check are the same problem. -/
theorem problem_eq_of_same_check {table : RuleTable} {text name : List Char} {check : Check}
    (hcheck : check ∈ checks table) {p q : Problem} (hp : p ∈ problemsOf table text name)
    (hq : q ∈ problemsOf table text name) (hpr : p.rule ∈ check.rules)
    (hqr : q.rule ∈ check.rules) : p = q := by
  obtain ⟨a, ha, hpa⟩ := mem_problemsOf.1 hp
  obtain ⟨b, hb, hqb⟩ := mem_problemsOf.1 hq
  have hac : a = check := check_eq_of_mem_rules ha hcheck (rule_mem_of_problem? ha hpa) hpr
  have hbc : b = check := check_eq_of_mem_rules hb hcheck (rule_mem_of_problem? hb hqb) hqr
  subst hac
  subst hbc
  exact Option.some.inj (hpa.symm.trans hqb)

/-- A problem is charged with the penalty of its rule, which is enabled. -/
theorem charge_of_mem_problemsOf {table : RuleTable} {text name : List Char} {p : Problem}
    (hp : p ∈ problemsOf table text name) :
    table.isEnabled p.rule = true ∧ p.deduction = (table.entry p.rule).penalty := by
  obtain ⟨check, hcheck, hproblem⟩ := mem_problemsOf.1 hp
  obtain ⟨d, -, henabled, rfl⟩ := (problem?_eq_some_iff hcheck p).1 hproblem
  exact ⟨henabled, rfl⟩

/-! ## The sum -/

namespace Score

/-- Points added to a sum that is kept in a signed word of 32 bits; none when it does not fit. -/
def addWord? (sum : Int) (points : UInt8) : Option Int :=
  if sum + points.toNat < 2 ^ 31 then some (sum + points.toNat) else none

theorem total_le_mul_length {scores : List UInt8} {high : UInt8} (h : ∀ s ∈ scores, s ≤ high) :
    total scores ≤ high.toNat * scores.length := by
  induction scores with
  | nil => simp
  | cons s scores ih =>
      obtain ⟨hs, hscores⟩ := List.forall_mem_cons.1 h
      have hrest := ih hscores
      rw [UInt8.le_iff_toNat_le] at hs
      rw [List.length_cons, Nat.mul_succ, total_cons]
      omega

theorem total_le (deductions : List UInt8) : total deductions ≤ 255 * deductions.length := by
  have hbytes : ∀ d ∈ deductions, d ≤ (255 : UInt8) := fun d _ =>
    UInt8.le_iff_toNat_le.2 (Nat.le_of_lt_succ d.toNat_lt)
  exact total_le_mul_length hbytes

/-- The running sum fits into its word as long as the whole sum does. -/
theorem foldlM_addWord? (deductions : List UInt8) (sum : Int)
    (h : sum + total deductions < 2 ^ 31) :
    deductions.foldlM addWord? sum = some (sum + total deductions) := by
  induction deductions generalizing sum with
  | nil => simp
  | cons d ds ih =>
      rw [total_cons] at h ⊢
      have hstep : addWord? sum d = some (sum + d.toNat) := by
        rw [addWord?, if_pos]
        omega
      have hrest := ih (sum + d.toNat) (by omega)
      rw [List.foldlM_cons, hstep]
      show ds.foldlM addWord? (sum + d.toNat) = _
      rw [hrest]
      congr 1
      omega

end Score

/-! ## Every result -/

/-- The result is what a table makes of the problems that it lists. -/
structure ScanResult.Balances (r : ScanResult) (table : RuleTable) : Prop where
  /-- The rules ascend in the order of all rules, so none is charged twice. -/
  ascending : (r.problems.map (·.rule)).Pairwise fun a b => Rule.all.idxOf a < Rule.all.idxOf b
  /-- One problem is missing for seven: a print is charged under one rule only. -/
  length_le : r.problems.length ≤ 6
  /-- A print in a loop is not charged as a plain print too. -/
  one_print : ¬(r.hasRule .debugPrint = true ∧ r.hasRule .debugPrintInLoop = true)
  /-- Every problem costs the penalty of its rule, which is enabled. -/
  charged : ∀ p ∈ r.problems,
    table.isEnabled p.rule = true ∧ p.deduction = (table.entry p.rule).penalty
  /-- The result blocks exactly if a broken rule does. -/
  fatal_iff : r.fatal = true ↔ ∃ p ∈ r.problems, (table.entry p.rule).fatal = true
  /-- The deductions add up, and are taken from a hundred points, in a signed word; the score is
  what is left. -/
  score_eq : ∃ sum, (r.problems.map (·.deduction)).foldlM Score.addWord? 0 = some sum ∧
    sum = r.totalDeduction ∧ -2 ^ 31 ≤ 100 - sum ∧ (r.score.toNat : Int) = max 0 (100 - sum)

/-- Every scan balances. -/
theorem balances_analyze (table : RuleTable) (text name : String) :
    (analyze table text name).Balances table where
  ascending := by
    have hall : Rule.all.Pairwise fun a b => Rule.all.idxOf a < Rule.all.idxOf b := by decide
    exact hall.sublist (rules_problemsOf_sublist table text.toList name.toList)
  length_le := length_problemsOf_le table text.toList name.toList
  one_print := by
    rintro ⟨hplain, hloop⟩
    obtain ⟨p, hp, hpr⟩ := List.any_eq_true.1 hplain
    obtain ⟨q, hq, hqr⟩ := List.any_eq_true.1 hloop
    rw [beq_iff_eq] at hpr hqr
    -- Both rules belong to the second check, which charges one problem.
    have hcheck : (checks table).get ⟨1, by simp [checks]⟩ ∈ checks table := List.get_mem _ _
    have heq : p = q :=
      problem_eq_of_same_check hcheck hp hq (by simp [checks, hpr]) (by simp [checks, hqr])
    rw [heq, hqr] at hpr
    cases hpr
  charged := fun _ hp => charge_of_mem_problemsOf hp
  fatal_iff := List.any_eq_true
  score_eq := by
    have hlength := length_problemsOf_le table text.toList name.toList
    let deductions := (problemsOf table text.toList name.toList).map (·.deduction)
    have hle : Score.total deductions ≤ 255 * 6 := by
      have hbytes := Score.total_le deductions
      rw [List.length_map] at hbytes
      omega
    have hsum := Score.foldlM_addWord? deductions 0 (by omega)
    have hscore : (analyze table text name).score.toNat = 100 - Score.total deductions :=
      Score.toNat_ofDeductions deductions
    refine ⟨Score.total deductions, ?_, rfl, by omega, ?_⟩
    · rw [Int.zero_add] at hsum
      exact hsum
    · rw [hscore]
      omega

/-- Whatever setters have made of the table of a preset, it lists the seven rules once each and in
order, and every scan under it balances. -/
theorem analyze_edited_balances (preset : Preset) (edits : List RuleTable.Edit)
    (text name : String) :
    (preset.edited edits).entries.map Prod.fst = Rule.all ∧
      (analyze (preset.edited edits) text name).Balances (preset.edited edits) :=
  ⟨RuleTable.rules_entries _, balances_analyze _ text name⟩

end Neatness
