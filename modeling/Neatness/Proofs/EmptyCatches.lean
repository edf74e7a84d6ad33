import Neatness.Proofs.IdleClauses
import Neatness.Proofs.Places

/-!
# Empty `catch` clauses

What a `catch` clause reads when it is reported: the whole word, a parameter in parentheses or none,
and braces with nothing but blanks between them.  The parameter ends with the first parenthesis that
closes.  When idle `except` clauses are looked for as well, the first handler of either kind is
reported.

* `EmptyCatch` and `IdleExcept` are the two kinds of handlers, each as it is read from left to right.
* `emptyBlock_iff` and `emptyBody_iff` are about the braces and about what may stand in front of them.
* `check_of_empty_catches` is the place that is reported, without and with `except` clauses.
-/

namespace Neatness
namespace EmptyHandler

/-! ## How a handler reads -/

/-- Nothing but blanks. -/
def Blank (cs : List Char) : Prop :=
  ∀ c ∈ cs, Text.isBlank c = true

/-- Nothing, or a parenthesis that opens and everything up to the first one that closes. -/
def IsParameter (cs : List Char) : Prop :=
  cs = [] ∨ ∃ words, cs = '(' :: (words ++ [')']) ∧ ')' ∉ words

/-- Braces with nothing but blanks between them, behind blanks. -/
def EmptyBlock (cs : List Char) : Prop :=
  ∃ gap inner rest, cs = gap ++ LoopBody.openBrace :: (inner ++ LoopBody.closeBrace :: rest) ∧
    Blank gap ∧ Blank inner

/-- A `catch` clause without content starts behind `front`. -/
def EmptyCatch (front cs : List Char) : Prop :=
  Text.opensWord front.getLast? = true ∧ ∃ blanks parameter block,
    cs = ['c', 'a', 't', 'c', 'h'] ++ (blanks ++ (parameter ++ block)) ∧
      Text.closesWord (blanks ++ (parameter ++ block)) = true ∧ Blank blanks ∧
      IsParameter parameter ∧ EmptyBlock block

/-- Nothing, or the end of a line and the spaces and tabs that start the next one. -/
def IsNewLine (cs : List Char) : Prop :=
  cs = [] ∨ ∃ lineBreak indent, cs = lineBreak ++ indent ∧ IsLineBreak lineBreak ∧ Inline indent

/-- An `except` clause starts behind `front`, and behind its colon come spaces and tabs, a comment or
none, the next line or not, and a statement that does nothing. -/
def IdleExcept (front cs : List Char) : Prop :=
  ∃ blanks comment newLine body,
    Clause front.getLast? cs (blanks ++ (comment ++ (newLine ++ body))) ∧ Inline blanks ∧
      IsComment comment ∧ IsNewLine newLine ∧ IsIdle body

/-! ## What the tests of a place find -/

theorem blank_takeWhile (cs : List Char) : Blank (cs.takeWhile Text.isBlank) :=
  List.all_eq_true.1 List.all_takeWhile

theorem emptyBlock_iff {cs : List Char} : emptyBlock cs = true ↔ EmptyBlock cs := by
  constructor
  · intro h
    unfold emptyBlock at h
    split at h
    · cases h
    · next c inner hdrop =>
      rw [Bool.and_eq_true, beq_iff_eq, beq_iff_eq] at h
      obtain ⟨rfl, hclose⟩ := h
      obtain ⟨rest, hrest⟩ := List.head?_eq_some_iff.1 hclose
      refine ⟨cs.takeWhile Text.isBlank, inner.takeWhile Text.isBlank, rest, ?_,
        blank_takeWhile cs, blank_takeWhile inner⟩
      rw [← hrest, List.takeWhile_append_dropWhile, ← hdrop, List.takeWhile_append_dropWhile]
  · rintro ⟨gap, inner, rest, rfl, hgap, hinner⟩
    rw [emptyBlock, Text.dropWhile_all_append hgap (by decide)]
    simp only
    rw [Text.dropWhile_all_append hinner (by decide)]
    rfl

/-- The braces are looked for behind the first parenthesis that closes. -/
theorem emptyBody_paren {blanks : List Char} (hblanks : Blank blanks) (cs : List Char) :
    emptyBody (blanks ++ '(' :: cs) = emptyBlock ((cs.dropWhile (· != ')')).drop 1) := by
  rw [emptyBody, Text.dropWhile_all_append hblanks (by decide)]
  rfl

/-- Without a parenthesis they are looked for at once. -/
theorem emptyBody_block {blanks block : List Char} (hblanks : Blank blanks)
    (hblock : EmptyBlock block) : emptyBody (blanks ++ block) = true := by
  obtain ⟨gap, inner, rest, rfl, hgap, hinner⟩ := hblock
  have hfront : Blank (blanks ++ gap) := by
    intro c hc
    exact (List.mem_append.1 hc).elim (hblanks c) (hgap c)
  rw [← List.append_assoc, emptyBody, Text.dropWhile_all_append hfront (by decide)]
  exact emptyBlock_iff.2 ⟨[], inner, rest, rfl, by simp [Blank], hinner⟩

theorem emptyBody_iff {cs : List Char} :
    emptyBody cs = true ↔ ∃ blanks parameter block, cs = blanks ++ (parameter ++ block) ∧
      Blank blanks ∧ IsParameter parameter ∧ EmptyBlock block := by
  constructor
  · intro h
    unfold emptyBody at h
    split at h
    · next rest hdrop =>
      -- If no parenthesis closed, nothing would be left for the braces.
      cases hclose : rest.dropWhile (· != ')') with
      | nil =>
          rw [hclose] at h
          cases h
      | cons c block =>
          rw [hclose, List.drop_one, List.tail_cons, emptyBlock_iff] at h
          have hc : c = ')' := by
            have hhead := List.head?_dropWhile_not (· != ')') rest
            rw [hclose] at hhead
            simpa using hhead
          subst hc
          refine ⟨cs.takeWhile Text.isBlank, '(' :: (rest.takeWhile (· != ')') ++ [')']), block, ?_,
            blank_takeWhile cs, .inr ⟨_, rfl, fun hmem => ?_⟩, h⟩
          · rw [List.cons_append, List.append_assoc, List.singleton_append, ← hclose,
              List.takeWhile_append_dropWhile, ← hdrop, List.takeWhile_append_dropWhile]
          · have hclass := List.all_eq_true.1 (List.all_takeWhile (l := rest)) ')' hmem
            simp at hclass
    · -- Whatever else follows the blanks, it is not a parameter.
      exact ⟨cs.takeWhile Text.isBlank, [], _, List.takeWhile_append_dropWhile.symm,
        blank_takeWhile cs, .inl rfl, emptyBlock_iff.1 h⟩
  · rintro ⟨blanks, parameter, block, rfl, hblanks, rfl | ⟨words, rfl, hwords⟩, hblock⟩
    · exact emptyBody_block hblanks hblock
    · rw [List.cons_append, emptyBody_paren hblanks, List.append_assoc,
        Text.dropWhile_ne_append hwords]
      exact emptyBlock_iff.2 hblock

theorem catchAt_iff (front cs : List Char) :
    catchAt front.getLast? cs = true ↔ EmptyCatch front cs := by
  unfold catchAt
  constructor
  · intro h
    split at h
    · next rest hword =>
      obtain ⟨hopens, rfl, hcloses⟩ := afterWord?_eq_some_iff.1 hword
      obtain ⟨blanks, parameter, block, rfl, hblanks, hparameter, hblock⟩ := emptyBody_iff.1 h
      exact ⟨hopens, blanks, parameter, block, rfl, hcloses, hblanks, hparameter, hblock⟩
    · cases h
  · rintro ⟨hopens, blanks, parameter, block, rfl, hcloses, hblanks, hparameter, hblock⟩
    rw [afterWord?_eq_some_iff.2 ⟨hopens, rfl, hcloses⟩]
    exact emptyBody_iff.2 ⟨blanks, parameter, block, rfl, hblanks, hparameter, hblock⟩

/-- A comment and a next line may each be there or not, which makes four cases. -/
theorem exceptAt_iff_idleExcept (front cs : List Char) :
    exceptAt front.getLast? cs = true ↔ IdleExcept front cs := by
  rw [exceptAt_iff]
  constructor
  · rintro ⟨body, hclause, hbody | hwords⟩
    · cases hbody with
      | here hblanks hidle =>
          exact ⟨_, [], [], _, hclause, hblanks, .inl rfl, .inl rfl, hidle⟩
      | @nextLine blanks comment lineBreak indent body hblanks hcomment hbreak hindent hidle =>
          refine ⟨blanks, comment, lineBreak ++ indent, body, ?_, hblanks, hcomment,
            .inr ⟨_, _, rfl, hbreak, hindent⟩, hidle⟩
          rwa [List.append_assoc]
    · obtain ⟨blanks, words, body, rfl, hblanks, hwords, hidle⟩ := hwords
      exact ⟨blanks, '#' :: words, [], body, hclause, hblanks, .inr ⟨_, rfl, hwords⟩, .inl rfl, hidle⟩
  · rintro ⟨blanks, comment, newLine, body, hclause, hblanks, hcomment, hnewLine, hidle⟩
    refine ⟨_, hclause, ?_⟩
    rcases hnewLine with rfl | ⟨lineBreak, indent, rfl, hbreak, hindent⟩
    · rcases hcomment with rfl | ⟨words, rfl, hwords⟩
      · exact .inl (.here hblanks hidle)
      · exact .inr ⟨blanks, words, body, rfl, hblanks, hwords, hidle⟩
    · left
      rw [List.append_assoc]
      exact .nextLine hblanks hcomment hbreak hindent hidle

/-! ## What is reported -/

section Reported

variable (text : List Char)

theorem check_false :
    check false text = (Text.first? catchAt text).map fun offset =>
      ⟨.emptyErrorHandler, offset, message⟩ := by
  rw [check]
  cases Text.first? catchAt text <;> rfl

theorem check_true :
    check true text =
      (Option.merge min (Text.first? catchAt text) (Text.first? exceptAt text)).map fun offset =>
        ⟨.emptyErrorHandler, offset, message⟩ := by
  rw [check]
  cases Text.first? catchAt text <;> cases Text.first? exceptAt text <;> rfl

/-- What is found among both kinds is no later than what is found among `catch` clauses alone. -/
theorem exists_check_true_le {d : Detection} (h : check false text = some d) :
    ∃ e, check true text = some e ∧ e.offset ≤ d.offset := by
  rw [check_false] at h
  obtain ⟨place, hplace, rfl⟩ := Option.map_eq_some_iff.1 h
  rw [check_true, hplace]
  cases Text.first? exceptAt text with
  | none => exact ⟨_, rfl, Nat.le_refl place⟩
  | some other => exact ⟨_, rfl, Nat.min_le_left place other⟩

end Reported

/-- Without `except` clauses the rule reports the place of the first empty `catch` clause.  With them
it reports the earlier one of that place and the place of the first idle `except` clause, whichever
of the two there are; so nothing gets lost, and nothing is reported further on than before. -/
theorem check_of_empty_catches (text : List Char) :
    (∀ d, check false text = some d ↔ ∃ offset, IsLeast (Text.startsOf EmptyCatch text) offset ∧
      d = ⟨.emptyErrorHandler, offset, message⟩) ∧
    (∃ excepts : Option Nat,
      (∀ offset, excepts = some offset ↔ IsLeast (Text.startsOf IdleExcept text) offset) ∧
      check true text =
        (Option.merge min ((check false text).map (·.offset)) excepts).map fun offset =>
          ⟨.emptyErrorHandler, offset, message⟩) ∧
    ∀ d, check false text = some d → ∃ e, check true text = some e ∧ e.offset ≤ d.offset := by
  refine ⟨fun d => ?_, ⟨Text.first? exceptAt text, fun offset => ?_, ?_⟩, fun d hd => ?_⟩
  · rw [check_false, Option.map_eq_some_iff]
    simp only [Text.first?_eq_some_iff_isLeast catchAt_iff, eq_comm]
  · exact Text.first?_eq_some_iff_isLeast exceptAt_iff_idleExcept
  · have hcatches : (check false text).map (·.offset) = Text.first? catchAt text := by
      rw [check_false, Option.map_map]
      exact Option.map_id_apply
    rw [hcatches, check_true]
  · exact exists_check_true_le text hd

/-- A clause of either kind, where the parameter holds one more parenthesis that opens. -/
def bothKinds : List Char :=
  "except:\n    ...\ncatch (a (b)\t\x7b\n\x7d".toList

theorem check_of_empty_catches_both :
    check false bothKinds = some ⟨.emptyErrorHandler, 16, message⟩ ∧
      IsLeast (Text.startsOf EmptyCatch bothKinds) 16 ∧
      ∃ e, check true bothKinds = some e ∧ e.offset ≤ 16 := by
  have hcatch : check false bothKinds = some ⟨.emptyErrorHandler, 16, message⟩ := by
    decide +kernel
  obtain ⟨hfirst, -, hboth⟩ := check_of_empty_catches bothKinds
  obtain ⟨offset, hleast, hd⟩ := (hfirst _).1 hcatch
  obtain rfl : 16 = offset := congrArg Detection.offset hd
  exact ⟨hcatch, hleast, hboth _ hcatch⟩

end EmptyHandler
end Neatness
