import Neatness.Proofs.Independence
import Neatness.Proofs.LineEndings.Prints

/-!
# Line endings

A document whose lines end with a carriage return and a newline is charged like the document whose
lines end with a newline alone, except for headers of loops that become too long and for blank lines
that become too deep.  `HeedsNoLineEnds` leaves these out, and `charged?_withReturns` is the
comparison rule by rule.
-/

namespace Neatness

/-! ## Two scans -/

/-- What a text has to be for a rule to pay no heed to its line ends.  If prints in loops are
reported, no loop keyword may lose its brace, unless there is no print in a loop anyway; and no line
that is all blank may be about to be too deep. -/
def HeedsNoLineEnds (table : RuleTable) (text : List Char) : Rule → Prop
  | .debugPrint | .debugPrintInLoop =>
    table.isEnabled .debugPrintInLoop = true →
      LoopBody.HeadersFit text ∨ DebugPrint.inLoop? text = none
  | .deepIndentation => ¬DeepIndentation.AlmostDeep text
  | _ => True

section Scans

variable {table : RuleTable} {text name : List Char} {rule : Rule}

theorem detection?_withReturns (hreturn : '\r' ∉ text) (hname : Text.OnOneLine name)
    (h : HeedsNoLineEnds table text rule) :
    detection? table (Text.withReturns text) name rule =
      (detection? table text name rule).map (Detection.withReturns text) := by
  cases rule with
  | absolutePath => exact AbsolutePath.check_withReturns text
  | debugPrint => exact DebugPrint.check_withReturns _ _ h
  | debugPrintInLoop => exact DebugPrint.check_withReturns _ _ h
  | unresolvedMarker => exact UnresolvedMarker.check_withReturns text
  | emptyErrorHandler => exact EmptyHandler.check_withReturns _ hreturn
  | deepIndentation => exact DeepIndentation.check_withReturns h
  | missingHeader => exact MissingHeader.check_withReturns hname text

/-- A rule that pays no heed to line ends charges the same problem at the same place. -/
theorem charged?_withReturns (hreturn : '\r' ∉ text) (hname : Text.OnOneLine name)
    (h : table.isEnabled rule = true → HeedsNoLineEnds table text rule) :
    charged? table (Text.withReturns text) name rule = charged? table text name rule := by
  unfold charged?
  by_cases henabled : table.isEnabled rule = true
  · rw [if_pos henabled, if_pos henabled, detection?_withReturns hreturn hname (h henabled)]
    cases detection? table text name rule with
    | none => rfl
    | some d =>
        have hcharge : (d.withReturns text).charge table (Text.withReturns text) =
            d.charge table text := by
          simp [Detection.charge, Detection.withReturns, Location.ofOffset_withReturns]
        have hrule : (d.withReturns text).rule = d.rule := rfl
        by_cases hd : d.rule = rule
        · simp [Option.filter, hrule, hd, hcharge]
        · simp [Option.filter, hrule, hd]
  · rw [if_neg henabled, if_neg henabled]

end Scans

/-- A document with a carriage return in front of every newline. -/
def withReturns (text : String) : String :=
  String.ofList (Text.withReturns text.toList)

/-- Whether lines end with a newline alone or with a carriage return and a newline does not matter
to any rule but those on prints, which look for the brace of a loop within a number of bytes, and the
one on indentation.  Where these two pay no heed to line ends either, the two scans are equal. -/
theorem analyze_withReturns (table : RuleTable) (text name : String)
    (hreturn : '\r' ∉ text.toList) (hname : Text.OnOneLine name.toList) :
    (∀ rule, (table.isEnabled rule = true → HeedsNoLineEnds table text.toList rule) →
      (analyze table (withReturns text) name).problem? rule =
        (analyze table text name).problem? rule) ∧
    ((∀ rule, table.isEnabled rule = true → HeedsNoLineEnds table text.toList rule) →
      analyze table (withReturns text) name = analyze table text name) := by
  have htext : (withReturns text).toList = Text.withReturns text.toList := String.toList_ofList
  constructor
  · intro rule h
    rw [problem?_analyze, problem?_analyze, htext, charged?_withReturns hreturn hname h]
  · intro h
    have hproblems : problemsOf table (withReturns text).toList name.toList =
        problemsOf table text.toList name.toList := by
      rw [htext, problemsOf_eq_filterMap, problemsOf_eq_filterMap]
      exact List.filterMap_congr fun rule _ => charged?_withReturns hreturn hname (h rule)
    unfold analyze
    rw [hproblems]

/-- A loop over four lines, with a print. -/
theorem analyze_withReturns_shortLoop :
    '\r' ∉ "for\n\x7b\n  puts\n\x7d".toList ∧ Text.OnOneLine "Ada".toList ∧
    (analyze Preset.standard.table "for\n\x7b\n  puts\n\x7d" "Ada").problem? .debugPrintInLoop =
      some ⟨.debugPrintInLoop, DebugPrint.loopMessage, 25, ⟨3, 3⟩⟩ ∧
    analyze Preset.standard.table (withReturns "for\n\x7b\n  puts\n\x7d") "Ada" =
      analyze Preset.standard.table "for\n\x7b\n  puts\n\x7d" "Ada" := by
  have hreturn : '\r' ∉ "for\n\x7b\n  puts\n\x7d".toList := by decide +kernel
  have hname : Text.OnOneLine "Ada".toList := by decide +kernel
  have hfits : LoopBody.HeadersFit "for\n\x7b\n  puts\n\x7d".toList := by decide +kernel
  have hshort : ¬DeepIndentation.AlmostDeep "for\n\x7b\n  puts\n\x7d".toList := by
    rintro ⟨front, blanks, rest, htext, -, hblanks, -, -⟩
    have hlength := congrArg List.length htext
    have hfourteen : "for\n\x7b\n  puts\n\x7d".toList.length = 14 := by decide +kernel
    rw [hfourteen, List.length_append, List.length_append, List.length_cons] at hlength
    rw [DeepIndentation.limit] at hblanks
    omega
  refine ⟨hreturn, hname, by decide +kernel,
    (analyze_withReturns _ _ _ hreturn hname).2 fun rule _ => ?_⟩
  cases rule with
  | debugPrint => exact fun _ => .inl hfits
  | debugPrintInLoop => exact fun _ => .inl hfits
  | deepIndentation => exact hshort
  | _ => trivial

/-- A loop whose brace stands eighty lines below its keyword. -/
def farLoop : String :=
  String.ofList ("for".toList ++ List.replicate 80 '\n' ++ "\x7bputs".toList)

/-- The brace is too far from the keyword once every line in between ends with two bytes, and the
print becomes a plain one. -/
theorem analyze_farLoop :
    '\r' ∉ farLoop.toList ∧
    analyze Preset.standard.table farLoop "" =
      ⟨75, false, [⟨.debugPrintInLoop, DebugPrint.loopMessage, 25, ⟨81, 2⟩⟩]⟩ ∧
    analyze Preset.standard.table (withReturns farLoop) "" =
      ⟨90, false, [⟨.debugPrint, DebugPrint.message, 10, ⟨81, 2⟩⟩]⟩ := by
  decide +kernel

end Neatness
