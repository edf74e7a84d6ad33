import Neatness.Detection.DeepIndentation
import Neatness.Proofs.Places

/-!
# Lines that sit too deep

The rule on indentation looks at one place after the other, and reports what a reader finds who
divides the text into lines: the first line that starts with sixteen blanks.

* `TooDeep` is about one line, and `FirstDeep` says where the first such line starts.
* `firstFrom_line` and `firstFrom_row` follow the search through one line.
* `check_of_deep_lines` is the line that is reported.
-/

namespace Neatness
namespace DeepIndentation

/-- A line that starts with sixteen blanks or more. -/
def TooDeep (line : List Char) : Prop :=
  16 ≤ (line.takeWhile Text.isBlank).length

instance (line : List Char) : Decidable (TooDeep line) :=
  inferInstanceAs (Decidable (16 ≤ _))

/-- The first of some lines that is too deep starts at an offset: behind the lines in front of it
and their newlines. -/
def FirstDeep (lines : List (List Char)) (offset : Nat) : Prop :=
  ∃ before line after, lines = before ++ line :: after ∧ TooDeep line ∧
    (∀ l ∈ before, ¬TooDeep l) ∧ offset = Text.byteLength (Text.ofLines before)

/-! ## The first of several lines -/

section Lines

variable {line : List Char} {lines : List (List Char)} {offset : Nat}

theorem not_firstDeep_nil : ¬FirstDeep [] offset := by
  rintro ⟨before, line, after, hlines, -⟩
  cases before <;> cases hlines

theorem firstDeep_cons_of_tooDeep (h : TooDeep line) :
    FirstDeep (line :: lines) offset ↔ offset = 0 := by
  constructor
  · rintro ⟨before, deep, after, hlines, -, hbefore, rfl⟩
    cases before with
    | nil => rfl
    | cons first before =>
        obtain ⟨rfl, -⟩ := List.cons.inj hlines
        exact absurd h (hbefore line List.mem_cons_self)
  · rintro rfl
    exact ⟨[], line, lines, rfl, h, by simp, rfl⟩

/-- A line that is not too deep is passed, with its newline. -/
theorem firstDeep_cons_of_not_tooDeep (h : ¬TooDeep line) :
    FirstDeep (line :: lines) offset ↔
      ∃ later, FirstDeep lines later ∧ offset = Text.byteLength line + 1 + later := by
  have hlength : ∀ before, Text.byteLength (Text.ofLines (line :: before)) =
      Text.byteLength line + 1 + Text.byteLength (Text.ofLines before) := by
    intro before
    rw [Text.ofLines, Text.byteLength_append, Text.byteLength_cons, ← Nat.add_assoc]
    rfl
  constructor
  · rintro ⟨before, deep, after, hlines, hdeep, hbefore, rfl⟩
    cases before with
    | nil =>
        obtain ⟨rfl, -⟩ := List.cons.inj hlines
        exact absurd hdeep h
    | cons first before =>
        obtain ⟨rfl, rfl⟩ := List.cons.inj hlines
        exact ⟨_, ⟨before, deep, after, rfl, hdeep, (List.forall_mem_cons.1 hbefore).2, rfl⟩,
          hlength before⟩
  · rintro ⟨-, ⟨before, deep, after, rfl, hdeep, hbefore, rfl⟩, rfl⟩
    exact ⟨line :: before, deep, after, rfl, hdeep, List.forall_mem_cons.2 ⟨h, hbefore⟩,
      (hlength before).symm⟩

/-- If some line is too deep, there is a first one. -/
theorem exists_firstDeep (hmem : line ∈ lines) (h : TooDeep line) :
    ∃ offset, FirstDeep lines offset := by
  induction lines with
  | nil => cases hmem
  | cons first lines ih =>
      by_cases hfirst : TooDeep first
      · exact ⟨0, (firstDeep_cons_of_tooDeep hfirst).2 rfl⟩
      · have hne : line ≠ first := by
          rintro rfl
          exact hfirst h
        obtain ⟨later, hlater⟩ := ih (List.mem_of_ne_of_mem hne hmem)
        exact ⟨_, (firstDeep_cons_of_not_tooDeep hfirst).2 ⟨later, hlater, rfl⟩⟩

end Lines

/-! ## The search through one line -/

section Search

variable {line rest : List Char}

/-- Blanks are counted up to the end of their line. -/
theorem blanksFollow_iff {n : Nat} (hline : '\n' ∉ line) (hrest : ∀ c ∈ rest.head?, c = '\n') :
    blanksFollow n (line ++ rest) = true ↔ n ≤ (line.takeWhile Text.isBlank).length := by
  induction line generalizing n with
  | nil =>
      cases n with
      | zero => simp [blanksFollow]
      | succ n =>
          cases rest with
          | nil => simp [blanksFollow]
          | cons c rest =>
              obtain rfl := hrest c rfl
              simp [blanksFollow]
  | cons c line ih =>
      rw [List.mem_cons, not_or] at hline
      cases n with
      | zero => simp [blanksFollow]
      | succ n =>
          rw [List.cons_append, blanksFollow, Bool.and_eq_true, ih hline.2, List.takeWhile_cons]
          by_cases hc : Text.isBlank c = true
          · simp [hc, Ne.symm hline.1]
          · simp [hc]

/-- Only the start of a line passes the test. -/
theorem opensAt_of_ne {c : Char} (hc : c ≠ '\n') (cs : List Char) :
    opensAt (some c) cs = false := by
  simp [opensAt, hc]

theorem opensAt_start_iff {before : Option Char} (hbefore : ∀ c ∈ before, c = '\n')
    (hline : '\n' ∉ line) (hrest : ∀ c ∈ rest.head?, c = '\n') :
    opensAt before (line ++ rest) = true ↔ TooDeep line := by
  have hstart : (before.isNone || before == some '\n') = true := by
    cases before with
    | none => rfl
    | some c =>
        obtain rfl := hbefore c rfl
        rfl
  rw [opensAt, hstart, Bool.true_and, blanksFollow_iff hline hrest, TooDeep, limit]

/-- Inside a line nothing is found. -/
theorem exists_firstFrom_inside {c : Char} (hc : c ≠ '\n') (hline : '\n' ∉ line) (offset : Nat)
    (rest : List Char) : ∃ before, Text.firstFrom opensAt (some c) offset (line ++ rest) =
      Text.firstFrom opensAt before (offset + Text.byteLength line) rest := by
  induction line generalizing c offset with
  | nil => exact ⟨some c, rfl⟩
  | cons d line ih =>
      rw [List.mem_cons, not_or] at hline
      obtain ⟨before, hbefore⟩ := ih (Ne.symm hline.1) hline.2 (offset + d.utf8Size)
      refine ⟨before, ?_⟩
      rw [List.cons_append, Text.firstFrom, opensAt_of_ne hc, if_neg Bool.false_ne_true, hbefore,
        Text.byteLength_cons, Nat.add_assoc]

variable {before : Option Char} (hbefore : ∀ c ∈ before, c = '\n') (hline : '\n' ∉ line)
  (offset : Nat)

include hbefore hline

/-- A line that is not too deep is passed. -/
theorem exists_firstFrom_of_not_tooDeep (hrest : ∀ c ∈ rest.head?, c = '\n')
    (h : ¬TooDeep line) :
    ∃ last, Text.firstFrom opensAt before offset (line ++ rest) =
      Text.firstFrom opensAt last (offset + Text.byteLength line) rest := by
  have hstart : ¬opensAt before (line ++ rest) = true := by
    rwa [opensAt_start_iff hbefore hline hrest]
  cases line with
  | nil => exact ⟨before, rfl⟩
  | cons c line =>
      rw [List.mem_cons, not_or] at hline
      obtain ⟨last, hlast⟩ := exists_firstFrom_inside (Ne.symm hline.1) hline.2
        (offset + c.utf8Size) rest
      refine ⟨last, ?_⟩
      rw [List.cons_append] at hstart ⊢
      rw [Text.firstFrom, if_neg hstart, hlast, Text.byteLength_cons, Nat.add_assoc]

/-- The search of a line that a newline ends. -/
theorem firstFrom_line (rest : List Char) :
    Text.firstFrom opensAt before offset (line ++ '\n' :: rest) =
      if TooDeep line then some offset
      else Text.firstFrom opensAt (some '\n') (offset + Text.byteLength line + 1) rest := by
  have hrest : ∀ c ∈ ('\n' :: rest).head?, c = '\n' := by simp
  split
  · next h =>
    exact Text.firstFrom_of_probe ((opensAt_start_iff hbefore hline hrest).2 h) offset
  · next h =>
    obtain ⟨last, hlast⟩ := exists_firstFrom_of_not_tooDeep hbefore hline offset hrest h
    -- A newline is not a blank of its line.
    have hend : opensAt last ('\n' :: rest) = false := by
      simp [opensAt, limit, blanksFollow]
    rw [hlast, Text.firstFrom, hend, if_neg Bool.false_ne_true]
    rfl

/-- The search of the last line. -/
theorem firstFrom_row :
    Text.firstFrom opensAt before offset line = if TooDeep line then some offset else none := by
  have hrest : ∀ c ∈ ([] : List Char).head?, c = '\n' := by simp
  split
  · next h =>
    have hstart := (opensAt_start_iff hbefore hline hrest).2 h
    rw [List.append_nil] at hstart
    exact Text.firstFrom_of_probe hstart offset
  · next h =>
    obtain ⟨last, hlast⟩ := exists_firstFrom_of_not_tooDeep hbefore hline offset hrest h
    have hend : opensAt last [] = false := by
      simp [opensAt, limit, blanksFollow]
    rw [List.append_nil] at hlast
    rw [hlast, Text.firstFrom, hend, if_neg Bool.false_ne_true]

end Search

/-! ## The search through all lines -/

/-- The search finds the first line that is too deep. -/
theorem firstFrom_ofLines_eq_some_iff {lines : List (List Char)} {row : List Char}
    (hlines : ∀ line ∈ lines, '\n' ∉ line) (hrow : '\n' ∉ row) {before : Option Char}
    (hbefore : ∀ c ∈ before, c = '\n') (offset : Nat) {place : Nat} :
    Text.firstFrom opensAt before offset (Text.ofLines lines ++ row) = some place ↔
      ∃ b, FirstDeep (lines ++ [row]) b ∧ place = offset + b := by
  induction lines generalizing before offset with
  | nil =>
      rw [Text.ofLines, List.nil_append, firstFrom_row hbefore hrow, List.nil_append]
      by_cases h : TooDeep row
      · simp [h, firstDeep_cons_of_tooDeep, eq_comm]
      · simp [h, firstDeep_cons_of_not_tooDeep, not_firstDeep_nil]
  | cons line lines ih =>
      obtain ⟨hline, hlater⟩ := List.forall_mem_cons.1 hlines
      rw [Text.ofLines, List.append_assoc, List.cons_append, firstFrom_line hbefore hline,
        List.cons_append]
      by_cases h : TooDeep line
      · simp [h, firstDeep_cons_of_tooDeep, eq_comm]
      · rw [if_neg h, ih hlater (by simp)]
        constructor
        · rintro ⟨b, hb, rfl⟩
          exact ⟨_, (firstDeep_cons_of_not_tooDeep h).2 ⟨b, hb, rfl⟩, by omega⟩
        · rintro ⟨_, hfirst, rfl⟩
          obtain ⟨b, hb, rfl⟩ := (firstDeep_cons_of_not_tooDeep h).1 hfirst
          exact ⟨b, hb, by omega⟩

/-! ## What is reported -/

/-- Some line is reported exactly if one of the lines between newlines starts with sixteen blanks or
more, and then it is the first such line, at the place where it starts. -/
theorem check_of_deep_lines (text : List Char) :
    ((check text).isSome = true ↔ ∃ line ∈ text.splitOn '\n', TooDeep line) ∧
    ∀ d, check text = some d ↔ ∃ offset, FirstDeep (text.splitOn '\n') offset ∧
      d = ⟨.deepIndentation, offset, message⟩ := by
  have hcheck : ∀ d, check text = some d ↔ ∃ offset, FirstDeep (text.splitOn '\n') offset ∧
      d = ⟨.deepIndentation, offset, message⟩ := by
    intro d
    obtain ⟨lines, row, rfl, hlines, hrow⟩ := Text.exists_ofLines_append text
    rw [check, Option.map_eq_some_iff, Text.splitOn_ofLines_append hlines hrow]
    have hfirst : ∀ place, Text.first? opensAt (Text.ofLines lines ++ row) = some place ↔
        FirstDeep (lines ++ [row]) place := by
      intro place
      rw [Text.first?, firstFrom_ofLines_eq_some_iff hlines hrow (by simp)]
      simp
    simp only [hfirst, eq_comm]
  refine ⟨?_, hcheck⟩
  rw [Option.isSome_iff_exists]
  constructor
  · rintro ⟨d, hd⟩
    obtain ⟨offset, ⟨before, line, after, hlines, hdeep, -⟩, -⟩ := (hcheck d).1 hd
    exact ⟨line, by simp [hlines], hdeep⟩
  · rintro ⟨line, hmem, hdeep⟩
    obtain ⟨offset, hfirst⟩ := exists_firstDeep hmem hdeep
    exact ⟨_, (hcheck _).2 ⟨offset, hfirst, rfl⟩⟩

/-- Fifteen blanks and the return in front of the newline, behind a line separator that ends no
line. -/
example : check ("é\u2028".toList ++ '\n' :: List.replicate 15 '\u00a0' ++ "\r\n".toList) =
    some ⟨.deepIndentation, 6, message⟩ := by
  decide +kernel

end DeepIndentation
end Neatness
