import Mathlib.Algebra.Ring.Nat
import Mathlib.Data.List.TakeWhile
import Neatness.Proofs.Appending.Prints
import Neatness.Proofs.Independence

/-!
# Text that is added at the end

What a check has found stays found when a line break and more text are added, whatever the text is.
Only a missing header can be cured in this way, and a plain print can become one in a loop.

* `charged?_isSome_append` is about one rule at a time.
* `points` are what a rule takes from a document, and `total_append_le` says that all rules together
  do not take less; prints may change places between the two rules about them.
-/

namespace Neatness

/-! ## Rule by rule -/

section Rules

variable {t : RuleTable} {text name : List Char} {rule : Rule}

/-- A check of one rule reports that rule. -/
theorem rule_of_detection? {d : Detection} (hplain : rule ≠ .debugPrint)
    (hloop : rule ≠ .debugPrintInLoop) (h : detection? t text name rule = some d) :
    d.rule = rule := by
  cases rule with
  | debugPrint => exact absurd rfl hplain
  | debugPrintInLoop => exact absurd rfl hloop
  | missingHeader =>
      simp only [detection?, MissingHeader.check, Option.ite_none_left_eq_some,
        Option.some.injEq] at h
      rw [← h.2]
  | _ =>
      obtain ⟨offset, -, rfl⟩ := Option.map_eq_some_iff.1 h
      rfl

theorem charged?_isSome_iff (hplain : rule ≠ .debugPrint) (hloop : rule ≠ .debugPrintInLoop) :
    (charged? t text name rule).isSome = true ↔
      t.isEnabled rule = true ∧ (detection? t text name rule).isSome = true := by
  rw [Option.isSome_iff_exists, Option.isSome_iff_exists]
  constructor
  · rintro ⟨p, hp⟩
    obtain ⟨henabled, d, hd, -⟩ := charged?_eq_some_iff.1 hp
    exact ⟨henabled, d, hd⟩
  · rintro ⟨henabled, d, hd⟩
    exact ⟨_, charged?_eq_some_iff.2
      ⟨henabled, d, hd, rule_of_detection? hplain hloop hd, rfl⟩⟩

theorem EmptyHandler.check_isSome_iff {exceptPass : Bool} :
    (check exceptPass text).isSome = true ↔
      (Text.first? catchAt text).isSome = true ∨
        exceptPass = true ∧ (Text.first? exceptAt text).isSome = true := by
  unfold check
  cases Text.first? catchAt text <;> cases exceptPass <;> cases Text.first? exceptAt text <;>
    simp [earlier]

/-- What the check of a rule detects apart from prints and headers is still detected. -/
theorem detection?_isSome_append (hplain : rule ≠ .debugPrint) (hloop : rule ≠ .debugPrintInLoop)
    (hheader : rule ≠ .missingHeader) (added : List Char)
    (h : (detection? t text name rule).isSome = true) :
    (detection? t (text ++ '\n' :: added) name rule).isSome = true := by
  cases rule with
  | debugPrint => exact absurd rfl hplain
  | debugPrintInLoop => exact absurd rfl hloop
  | missingHeader => exact absurd rfl hheader
  | absolutePath =>
      simp only [detection?, AbsolutePath.check, Option.isSome_map] at h ⊢
      exact AbsolutePath.opensAt_lasts.firstFrom added h
  | unresolvedMarker =>
      simp only [detection?, UnresolvedMarker.check, Option.isSome_map] at h ⊢
      exact UnresolvedMarker.opensAt_lasts.firstFrom added h
  | deepIndentation =>
      simp only [detection?, DeepIndentation.check, Option.isSome_map] at h ⊢
      exact DeepIndentation.opensAt_lasts.firstFrom added h
  | emptyErrorHandler =>
      simp only [detection?, EmptyHandler.check_isSome_iff] at h ⊢
      refine h.imp ?_ ?_
      · exact fun hcatch => EmptyHandler.catchAt_lasts.firstFrom added hcatch
      · exact fun hexcept => ⟨hexcept.1, EmptyHandler.exceptAt_lasts.firstFrom added hexcept.2⟩

/-- A rule that is charged stays charged; only a plain print may turn into one in a loop. -/
theorem charged?_isSome_append (hheader : rule ≠ .missingHeader) (added : List Char)
    (h : (charged? t text name rule).isSome = true) :
    (charged? t (text ++ '\n' :: added) name rule).isSome = true ∨
      rule = .debugPrint ∧
        (charged? t (text ++ '\n' :: added) name .debugPrintInLoop).isSome = true := by
  by_cases hloop : rule = .debugPrintInLoop
  · subst hloop
    left
    rw [charged?_debugPrintInLoop] at h ⊢
    cases henabled : t.isEnabled .debugPrintInLoop with
    | false => simp [henabled] at h
    | true =>
        simp only [henabled, if_true, Option.isSome_map] at h ⊢
        obtain ⟨found, hfound⟩ := Option.isSome_iff_exists.1 h
        rw [DebugPrint.inLoop?_append hfound]
        rfl
  by_cases hplain : rule = .debugPrint
  · subst hplain
    cases hinside : charged? t (text ++ '\n' :: added) name .debugPrintInLoop with
    | some p => exact .inr ⟨rfl, rfl⟩
    | none =>
        left
        rw [charged?_debugPrint] at h ⊢
        cases henabled : t.isEnabled .debugPrint with
        | false => simp [henabled] at h
        | true =>
            -- The first print of the old text is the first one of the longer text as well.
            obtain ⟨later, hlater⟩ := DebugPrint.starts_prefix text added
            simp only [hinside, and_self, if_true, plainPrint?, Option.isSome_map]
            cases hstarts : DebugPrint.starts text with
            | nil =>
                rw [plainPrint?, hstarts] at h
                simp at h
            | cons first rest =>
                rw [← hlater, hstarts]
                rfl
  · rw [charged?_isSome_iff hplain hloop] at h
    left
    rw [charged?_isSome_iff hplain hloop]
    exact ⟨h.1, detection?_isSome_append hplain hloop hheader added h.2⟩

end Rules

/-! ## The score -/

section Points

variable {t : RuleTable} {text name : List Char}

/-- The points that a rule takes from a document. -/
def points (t : RuleTable) (text name : List Char) (rule : Rule) : Nat :=
  if (charged? t text name rule).isSome then (t.entry rule).penalty.toNat else 0

/-- The deductions of some rules add up to the points that these rules take. -/
theorem total_filterMap_charged? (rules : List Rule) :
    Score.total ((rules.filterMap (charged? t text name)).map (·.deduction)) =
      (rules.map (points t text name)).sum := by
  induction rules with
  | nil => rfl
  | cons rule rules ih =>
      rw [List.map_cons, List.sum_cons, ← ih]
      cases hcharged : charged? t text name rule with
      | none =>
          rw [List.filterMap_cons_none hcharged]
          simp [points, hcharged]
      | some p =>
          obtain ⟨-, d, -, hrule, rfl⟩ := charged?_eq_some_iff.1 hcharged
          rw [List.filterMap_cons_some hcharged, List.map_cons, Score.total_cons]
          simp [points, hcharged, Detection.charge, hrule]

/-- A blank name is asked for nowhere. -/
theorem charged?_missingHeader_of_blank (h : ∀ c ∈ name, Text.isBlank c = true) :
    charged? t text name .missingHeader = none := by
  have htrim : Text.trim name = [] := by
    have hdrop : name.dropWhile Text.isBlank = [] := List.dropWhile_eq_nil_iff.2 h
    rw [Text.trim, hdrop]
    rfl
  unfold charged? detection? MissingHeader.check
  simp [htrim]

theorem points_append_le {rule : Rule} (hheader : rule ≠ .missingHeader)
    (hplain : rule ≠ .debugPrint) (added : List Char) :
    points t text name rule ≤ points t (text ++ '\n' :: added) name rule := by
  unfold points
  by_cases hcharged : (charged? t text name rule).isSome = true
  · rcases charged?_isSome_append hheader added hcharged with hstill | ⟨hprint, -⟩
    · rw [if_pos hcharged, if_pos hstill]
    · exact absurd hprint hplain
  · simp [hcharged]

variable (text name) in
/-- The points for prints do not become fewer if prints in loops cost no less than plain ones. -/
theorem points_prints_append_le
    (hcost : (t.entry .debugPrint).penalty ≤ (t.entry .debugPrintInLoop).penalty)
    (added : List Char) :
    points t text name .debugPrint + points t text name .debugPrintInLoop ≤
      points t (text ++ '\n' :: added) name .debugPrint +
        points t (text ++ '\n' :: added) name .debugPrintInLoop := by
  have hloop : points t text name .debugPrintInLoop ≤
      points t (text ++ '\n' :: added) name .debugPrintInLoop :=
    points_append_le (by decide) (by decide) added
  rw [UInt8.le_iff_toNat_le] at hcost
  by_cases hcharged : (charged? t text name .debugPrint).isSome = true
  · have hno : charged? t text name .debugPrintInLoop = none := by
      cases hinside : charged? t text name .debugPrintInLoop with
      | none => rfl
      | some p =>
          rw [charged?_debugPrint] at hcharged
          simp [hinside] at hcharged
    have hpoints : points t text name .debugPrintInLoop = 0 := by simp [points, hno]
    have hprice : points t text name .debugPrint = (t.entry .debugPrint).penalty.toNat := by
      simp [points, hcharged]
    rcases charged?_isSome_append (by decide) added hcharged with hstill | ⟨-, hinside⟩
    · have : points t (text ++ '\n' :: added) name .debugPrint =
          (t.entry .debugPrint).penalty.toNat := by simp [points, hstill]
      omega
    · have : points t (text ++ '\n' :: added) name .debugPrintInLoop =
          (t.entry .debugPrintInLoop).penalty.toNat := by simp [points, hinside]
      omega
  · have : points t text name .debugPrint = 0 := by simp [points, hcharged]
    omega

variable (text) in
/-- Without a name to look for, the deductions do not become fewer. -/
theorem total_append_le (hblank : ∀ c ∈ name, Text.isBlank c = true)
    (hcost : (t.entry .debugPrint).penalty ≤ (t.entry .debugPrintInLoop).penalty)
    (added : List Char) :
    Score.total ((problemsOf t text name).map (·.deduction)) ≤
      Score.total ((problemsOf t (text ++ '\n' :: added) name).map (·.deduction)) := by
  rw [problemsOf_eq_filterMap, problemsOf_eq_filterMap, total_filterMap_charged?,
    total_filterMap_charged?]
  have hprints := points_prints_append_le text name hcost added
  have hheader : points t text name .missingHeader = 0 := by
    simp [points, charged?_missingHeader_of_blank hblank]
  have hother : ∀ rule, rule ≠ .missingHeader → rule ≠ .debugPrint →
      points t text name rule ≤ points t (text ++ '\n' :: added) name rule :=
    fun rule hheader hplain => points_append_le hheader hplain added
  have hpath := hother .absolutePath (by decide) (by decide)
  have hmarker := hother .unresolvedMarker (by decide) (by decide)
  have hhandler := hother .emptyErrorHandler (by decide) (by decide)
  have hdeep := hother .deepIndentation (by decide) (by decide)
  simp only [Rule.all, List.map_cons, List.map_nil, List.sum_cons, List.sum_nil]
  omega

end Points

/-- A problem other than a missing header has a counterpart in the longer document. -/
theorem exists_problem_append {t : RuleTable} {text name : List Char} {p : Problem}
    (hp : p ∈ problemsOf t text name) (hheader : p.rule ≠ .missingHeader) (added : List Char) :
    ∃ q ∈ problemsOf t (text ++ '\n' :: added) name,
      q.rule = p.rule ∨ p.rule = .debugPrint ∧ q.rule = .debugPrintInLoop := by
  have hcharged : (charged? t text name p.rule).isSome = true := by
    rw [mem_problemsOf_iff.1 hp]
    rfl
  have hmem : ∀ (rule : Rule) (q : Problem),
      charged? t (text ++ '\n' :: added) name rule = some q →
        q ∈ problemsOf t (text ++ '\n' :: added) name := by
    intro rule q hq
    rw [mem_problemsOf_iff, rule_of_charged? hq]
    exact hq
  rcases charged?_isSome_append hheader added hcharged with hsame | ⟨hprint, hloop⟩
  · obtain ⟨q, hq⟩ := Option.isSome_iff_exists.1 hsame
    exact ⟨q, hmem _ q hq, .inl (rule_of_charged? hq)⟩
  · obtain ⟨q, hq⟩ := Option.isSome_iff_exists.1 hloop
    exact ⟨q, hmem _ q hq, .inr ⟨hprint, rule_of_charged? hq⟩⟩

/-- Adding a line break and more text to a document clears no problem but a missing header; a plain
print may turn into one in a loop.  So without a name to look for, the score of a document under a
preset does not rise, and a blocked document stays blocked. -/
theorem analyze_append_newline (table : RuleTable) (text added name : String) :
    (∀ p ∈ (analyze table text name).problems, p.rule ≠ .missingHeader →
      ∃ q ∈ (analyze table (text ++ "\n" ++ added) name).problems,
        q.rule = p.rule ∨ p.rule = .debugPrint ∧ q.rule = .debugPrintInLoop) ∧
    ∀ preset : Preset, (∀ c ∈ name.toList, Text.isBlank c = true) →
      (analyze preset.table (text ++ "\n" ++ added) name).score ≤
          (analyze preset.table text name).score ∧
        ((analyze preset.table text name).fatal = true →
          (analyze preset.table (text ++ "\n" ++ added) name).fatal = true) := by
  have htext : (text ++ "\n" ++ added).toList = text.toList ++ '\n' :: added.toList := by
    simp
  have hproblems : ∀ t : RuleTable, (analyze t (text ++ "\n" ++ added) name).problems =
      problemsOf t (text.toList ++ '\n' :: added.toList) name.toList := by
    intro t
    rw [← htext]
    rfl
  refine ⟨?_, fun preset hblank => ⟨?_, ?_⟩⟩
  · intro p hp hheader
    rw [hproblems]
    exact exists_problem_append hp hheader added.toList
  · have hcost : (preset.table.entry .debugPrint).penalty ≤
        (preset.table.entry .debugPrintInLoop).penalty := by
      cases preset <;> decide
    have htotal := total_append_le text.toList hblank hcost added.toList
    have hold : (analyze preset.table text name).score.toNat = 100 -
        Score.total ((problemsOf preset.table text.toList name.toList).map (·.deduction)) :=
      Score.toNat_ofDeductions _
    have hnew : (analyze preset.table (text ++ "\n" ++ added) name).score.toNat = 100 -
        Score.total ((analyze preset.table (text ++ "\n" ++ added) name).problems.map
          (·.deduction)) :=
      Score.toNat_ofDeductions _
    rw [hproblems] at hnew
    rw [UInt8.le_iff_toNat_le]
    omega
  · intro hfatal
    obtain ⟨p, hp, hblocks⟩ := (balances_analyze preset.table text name).fatal_iff.1 hfatal
    -- The only rule that blocks under a preset is the one on absolute paths.
    have hrule : p.rule = .absolutePath := by
      cases hcase : p.rule with
      | absolutePath => rfl
      | _ =>
          rw [hcase] at hblocks
          cases hblocks
    obtain ⟨q, hq, hsame⟩ := exists_problem_append hp (by rw [hrule]; decide) added.toList
    rw [← hproblems] at hq
    apply (balances_analyze preset.table (text ++ "\n" ++ added) name).fatal_iff.2
    refine ⟨q, hq, ?_⟩
    rcases hsame with hsame | ⟨hprint, -⟩
    · rw [hsame]
      exact hblocks
    · rw [hrule] at hprint
      cases hprint

/-- A blocked document with a plain print stays blocked when a loop with a print is added, and the
print becomes one in a loop. -/
theorem analyze_append_newline_loop :
    (⟨.debugPrint, DebugPrint.message, 10, ⟨1, 5⟩⟩ : Problem) ∈
        (analyze Preset.standard.table "'C:/puts" "").problems ∧
    (∃ q ∈ (analyze Preset.standard.table ("'C:/puts" ++ "\n" ++ "for\x7bputs") "").problems,
      q.rule = .debugPrint ∨ q.rule = .debugPrintInLoop) ∧
    (analyze Preset.standard.table ("'C:/puts" ++ "\n" ++ "for\x7bputs") "").score ≤
      (analyze Preset.standard.table "'C:/puts" "").score ∧
    (analyze Preset.standard.table ("'C:/puts" ++ "\n" ++ "for\x7bputs") "").fatal = true := by
  have hprint : (⟨.debugPrint, DebugPrint.message, 10, ⟨1, 5⟩⟩ : Problem) ∈
      (analyze Preset.standard.table "'C:/puts" "").problems := by decide +kernel
  have hfatal : (analyze Preset.standard.table "'C:/puts" "").fatal = true := by decide +kernel
  obtain ⟨hstays, hscore⟩ :=
    analyze_append_newline Preset.standard.table "'C:/puts" "for\x7bputs" ""
  obtain ⟨hle, hblocked⟩ := hscore .standard (by simp)
  obtain ⟨q, hq, hrule⟩ := hstays _ hprint (by decide)
  exact ⟨hprint, ⟨q, hq, hrule.imp_right And.right⟩, hle, hblocked hfatal⟩

end Neatness
