import Mathlib.Data.List.TakeWhile
import Mathlib.Logic.ExistsUnique
import Neatness.Detection.MissingHeader

/-!
# Names in headers

The header is what is left of the first ten lines when they are joined again, and the name that it
should hold is the given one from its first visible character to its last.  Nothing else counts:
neither the lines below the header nor the blanks around the name.

* `Text.IsCore` is a name without the blanks at its two ends, and `Text.IsCore.eq_trim` says that
  there is one for each name.
* `firstLines_eq_intercalate` finds the first lines by dividing the text at its newlines.
* `check_of_headers` is what is reported, and what it does not depend on.
-/

namespace Neatness

namespace Text

/-! ## Parts and lines -/

theorem hasPart_iff_isInfix {part text : List Char} :
    hasPart part text = true ↔ part <:+: text := by
  induction text with
  | nil => rw [hasPart, List.isEmpty_iff, List.infix_nil]
  | cons c cs ih =>
      rw [hasPart, Bool.or_eq_true, List.isPrefixOf_iff_prefix, ih, List.infix_cons_iff]

theorem infix_append_ofList (front back : String) (part : List Char) :
    part <:+: (front ++ String.ofList part ++ back).toList := by
  rw [String.toList_append, String.toList_append, String.toList_ofList]
  exact ⟨front.toList, back.toList, rfl⟩

/-- A text has one line more than it has newlines. -/
theorem length_splitOn_newline (cs : List Char) :
    (cs.splitOn '\n').length = cs.count '\n' + 1 := by
  induction cs with
  | nil => rfl
  | cons c cs ih =>
      rw [List.splitOn_cons_eq_if_modifyHead]
      by_cases hc : c = '\n'
      · subst hc
        rw [if_pos (beq_self_eq_true _), List.length_cons, ih, List.count_cons_self]
      · rw [if_neg (by simpa using hc), List.length_modifyHead, ih, List.count_cons_of_ne hc]

/-! ## Names without the blanks around them -/

/-- A name from its first visible character to its last: only blanks are missing at its ends, and
none is left there. -/
structure IsCore (core name : List Char) : Prop where
  /-- What was taken away. -/
  blanks : ∃ before after, name = before ++ (core ++ after) ∧
    (∀ c ∈ before, isBlank c = true) ∧ ∀ c ∈ after, isBlank c = true
  /-- No blank is left at the start. -/
  head : ∀ c ∈ core.head?, isBlank c = false
  /-- No blank is left at the end. -/
  last : ∀ c ∈ core.getLast?, isBlank c = false

/-- There is at most one such name, and trimming finds it. -/
theorem IsCore.eq_trim {core name : List Char} (h : IsCore core name) : trim name = core := by
  obtain ⟨before, after, rfl, hbefore, hafter⟩ := h.blanks
  rw [trim, List.dropWhile_append_of_pos hbefore]
  cases hcore : core with
  | nil =>
      rw [List.nil_append, List.dropWhile_eq_nil_iff.2 hafter]
      rfl
  | cons c cs =>
      -- The first character stops the search from the left, the last one that from the right.
      have hc : isBlank c = false := h.head c (by simp [hcore])
      have hreverse : (c :: cs).reverse.dropWhile isBlank = (c :: cs).reverse := by
        refine List.dropWhile_eq_self_iff.2 fun hlength => ?_
        have hlast := h.last ((c :: cs).reverse[0]) (by
          rw [hcore, List.getLast?_eq_head?_reverse, List.head?_eq_getElem?]
          exact List.getElem?_eq_getElem hlength)
        rw [hlast]
        exact Bool.false_ne_true
      have hback : ∀ d ∈ after.reverse, isBlank d = true := by
        intro d hd
        exact hafter d (List.mem_reverse.1 hd)
      rw [List.cons_append, List.dropWhile_cons_of_neg (by simp [hc]), ← List.cons_append,
        List.reverse_append, List.dropWhile_append_of_pos hback, hreverse, List.reverse_reverse]

theorem isCore_trim (name : List Char) : IsCore (trim name) name := by
  let middle := name.dropWhile isBlank
  have hmiddle : middle = trim name ++ (middle.reverse.takeWhile isBlank).reverse := by
    rw [trim, ← List.reverse_append, List.takeWhile_append_dropWhile, List.reverse_reverse]
  refine ⟨⟨name.takeWhile isBlank, (middle.reverse.takeWhile isBlank).reverse, ?_,
    List.all_eq_true.1 List.all_takeWhile, fun c hc => ?_⟩, fun c hc => ?_, fun c hc => ?_⟩
  · rw [← hmiddle, List.takeWhile_append_dropWhile]
  · exact List.all_eq_true.1 List.all_takeWhile c (List.mem_reverse.1 hc)
  · -- The trimmed name starts where the blanks at the left end.
    have hhead : middle.head? = some c := by
      rw [hmiddle, List.head?_append, Option.mem_def.1 hc]
      rfl
    have hclass := List.head?_dropWhile_not isBlank name
    rw [show name.dropWhile isBlank = middle from rfl, hhead] at hclass
    simpa using hclass
  · have hhead : (middle.reverse.dropWhile isBlank).head? = some c := by
      rw [List.head?_eq_getLast?_reverse]
      exact hc
    have hclass := List.head?_dropWhile_not isBlank middle.reverse
    rw [hhead] at hclass
    simpa using hclass

/-- Blanks around a name do not change its trimmed form. -/
theorem trim_blanks_append {before after : List Char} (hbefore : ∀ c ∈ before, isBlank c = true)
    (hafter : ∀ c ∈ after, isBlank c = true) (name : List Char) :
    trim (before ++ (name ++ after)) = trim name := by
  obtain ⟨⟨front, back, hname, hfront, hback⟩, hhead, hlast⟩ := isCore_trim name
  have hcore : IsCore (trim name) (before ++ (name ++ after)) := by
    refine ⟨⟨before ++ front, back ++ after, ?_, ?_, ?_⟩, hhead, hlast⟩
    · rw [List.append_assoc, ← List.append_assoc (trim name), ← List.append_assoc front, ← hname]
    · exact fun c hc => (List.mem_append.1 hc).elim (hbefore c) (hfront c)
    · exact fun c hc => (List.mem_append.1 hc).elim (hback c) (hafter c)
  exact hcore.eq_trim

end Text

namespace MissingHeader

/-! ## The first lines -/

theorem lengthOfLines_add (count lines : Nat) (cs : List Char) :
    lengthOfLines count lines cs = count + lengthOfLines 0 lines cs := by
  induction cs generalizing count lines with
  | nil => cases lines <;> rfl
  | cons c cs ih =>
      cases lines with
      | zero => rfl
      | succ lines =>
          rw [lengthOfLines, lengthOfLines, ih (count + 1) lines, ih (0 + 1) lines,
            ih (count + 1) (lines + 1), ih (0 + 1) (lines + 1)]
          split
          · split
            · rfl
            · omega
          · omega

/-- The first lines of a text, without the newline that ends the last of them. -/
def firstLines (lines : Nat) (cs : List Char) : List Char :=
  cs.take (lengthOfLines 0 lines cs)

theorem firstLines_cons (lines : Nat) (c : Char) (cs : List Char) :
    firstLines (lines + 1) (c :: cs) =
      if c = '\n' then if lines = 0 then [] else c :: firstLines lines cs
      else c :: firstLines (lines + 1) cs := by
  unfold firstLines
  rw [lengthOfLines, lengthOfLines_add (0 + 1) lines, lengthOfLines_add (0 + 1) (lines + 1)]
  split
  · split
    · rfl
    · rw [Nat.zero_add, Nat.add_comm, List.take_succ_cons]
  · rw [Nat.zero_add, Nat.add_comm, List.take_succ_cons]

/-- The first lines are the first pieces between newlines, joined again. -/
theorem firstLines_eq_intercalate (lines : Nat) (cs : List Char) :
    firstLines (lines + 1) cs = ['\n'].intercalate ((cs.splitOn '\n').take (lines + 1)) := by
  induction cs generalizing lines with
  | nil =>
      rw [List.splitOn_nil, List.take_succ_cons, List.take_nil, List.intercalate_singleton,
        firstLines, List.take_nil]
  | cons c cs ih =>
      rw [firstLines_cons, List.splitOn_cons_eq_if_modifyHead]
      by_cases hc : c = '\n'
      · subst hc
        rw [if_pos rfl, if_pos (beq_self_eq_true _), List.take_succ_cons]
        cases lines with
        | zero => rw [if_pos rfl, List.take_zero, List.intercalate_singleton]
        | succ lines =>
            have hne : (cs.splitOn '\n').take (lines + 1) ≠ [] := by
              simp [List.take_eq_nil_iff, List.splitOn_ne_nil]
            rw [if_neg (Nat.succ_ne_zero lines), ih lines, List.intercalate_cons_of_ne_nil hne]
            rfl
      · rw [if_neg hc, if_neg (by simpa using hc), ih lines]
        cases hpieces : cs.splitOn '\n' with
        | nil => exact absurd hpieces (List.splitOn_ne_nil '\n' cs)
        | cons piece pieces =>
            rw [List.modifyHead_cons, List.take_succ_cons, List.take_succ_cons,
              List.intercalate_cons_cons_left]

theorem header_eq_intercalate (text : List Char) :
    header text = ['\n'].intercalate ((text.splitOn '\n').take 10) :=
  firstLines_eq_intercalate 9 text

/-- With ten newlines the header is all that stands in front of the tenth. -/
theorem header_of_tenth_newline {front : List Char} (h : front.count '\n' = 9)
    (rest : List Char) : header (front ++ '\n' :: rest) = front := by
  have hlength : (front.splitOn '\n').length = 10 := by
    rw [Text.length_splitOn_newline, h]
  rw [header_eq_intercalate, List.splitOn_append_cons_self, List.take_append_of_le_length
    (Nat.le_of_eq hlength.symm), List.take_of_length_le (Nat.le_of_eq hlength),
    List.intercalate_splitOn]

/-! ## What is reported -/

/-- The author is told the name that is missing. -/
theorem infix_message (name : List Char) : name <:+: (message name).toList :=
  Text.infix_append_ofList _ _ name

theorem check_eq_some_iff {core name : List Char} (h : Text.IsCore core name) (text : List Char)
    (d : Detection) :
    check name text = some d ↔ (core ≠ [] ∧ ¬core <:+: header text) ∧
      d = ⟨.missingHeader, 0, message core⟩ := by
  rw [check, h.eq_trim, Option.ite_none_left_eq_some, Bool.or_eq_true, not_or, List.isEmpty_iff,
    Text.hasPart_iff_isInfix, Option.some.injEq]
  exact and_congr_right fun _ => eq_comm

/-- A name is missing exactly if something is left of it between its blanks and that is no part of
the first ten lines.  It is missing from the start of the text, and the author is told what was left
of it.  What stands behind the tenth newline, and the blanks around the name, change nothing. -/
theorem check_of_headers (name text : List Char) :
    (∃! core, Text.IsCore core name) ∧
    (∀ core, Text.IsCore core name →
      core <:+: (message core).toList ∧
      ∀ d, check name text = some d ↔
        (core ≠ [] ∧ ¬core <:+: ['\n'].intercalate ((text.splitOn '\n').take 10)) ∧
          d = ⟨.missingHeader, 0, message core⟩) ∧
    (∀ front rest, text = front ++ '\n' :: rest → front.count '\n' = 9 →
      ∀ other, check name (front ++ '\n' :: other) = check name text) ∧
    ∀ before after, (∀ c ∈ before, Text.isBlank c = true) → (∀ c ∈ after, Text.isBlank c = true) →
      check (before ++ (name ++ after)) text = check name text := by
  refine ⟨⟨Text.trim name, Text.isCore_trim name, fun core hcore => hcore.eq_trim.symm⟩,
    fun core hcore => ⟨infix_message core, fun d => ?_⟩, ?_, fun before after hbefore hafter => ?_⟩
  · rw [← header_eq_intercalate]
    exact check_eq_some_iff hcore text d
  · rintro front rest rfl hcount other
    rw [check, check, header_of_tenth_newline hcount, header_of_tenth_newline hcount]
  · rw [check, check, Text.trim_blanks_append hbefore hafter]

/-- A name of two words between a no-break space and a tab. -/
def spacedName : List Char :=
  "\u00a0Zoë Ó\t".toList

/-- A text whose eleventh line holds the name. -/
def elevenLines : List Char :=
  List.replicate 9 '\n' ++ '\n' :: "Zoë Ó".toList

theorem check_of_headers_elevenLines :
    Text.IsCore "Zoë Ó".toList spacedName ∧
    ¬"Zoë Ó".toList <:+: ['\n'].intercalate ((elevenLines.splitOn '\n').take 10) ∧
    check spacedName (List.replicate 9 '\n' ++ ['\n']) = check spacedName elevenLines ∧
    check (['\u3000'] ++ (spacedName ++ ['\r'])) elevenLines =
      some ⟨.missingHeader, 0, message "Zoë Ó".toList⟩ := by
  have hcore : Text.IsCore "Zoë Ó".toList spacedName :=
    ⟨⟨['\u00a0'], ['\t'], by decide, List.forall_mem_singleton.2 (by decide),
      List.forall_mem_singleton.2 (by decide)⟩, by simp [Text.isBlank], by simp [Text.isBlank]⟩
  have hcheck : check spacedName elevenLines =
      some ⟨.missingHeader, 0, message "Zoë Ó".toList⟩ := by
    decide +kernel
  obtain ⟨-, hreport, hcut, hpadded⟩ := check_of_headers spacedName elevenLines
  refine ⟨hcore, ((hreport _ hcore).2 _ |>.1 hcheck).1.2, hcut _ _ rfl (by decide) [], ?_⟩
  rw [hpadded _ _ (List.forall_mem_singleton.2 (by decide))
    (List.forall_mem_singleton.2 (by decide)), hcheck]

end MissingHeader
end Neatness
