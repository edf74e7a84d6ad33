import Neatness.Detection.UnresolvedMarker
import Neatness.Proofs.IdleClauses
import Neatness.Proofs.Places

/-!
# Marked comments

What a comment reads that is reported for its marker.  A comment opens, more spaces and tabs may
follow, and then comes the marker as a whole word, in any case.  The openers overlap, as in `///` or
`/**`, so a marker can belong to several comments; the one that starts first is reported.

* `Opener` lists how a comment opens, and `Marked` is a text that starts with a marker.
* `opensAt_iff` says that a place passes the test exactly if a marked comment starts there.
* `check_of_marked_comments` is the place that is reported: the least one.
-/

namespace Neatness
namespace UnresolvedMarker

/-! ## How a marked comment reads -/

/-- The markers, in capitals. -/
def markers : List (List Char) :=
  [['T', 'O', 'D', 'O'], ['F', 'I', 'X', 'M', 'E'], ['X', 'X', 'X']]

/-- A marker in any case starts the text, and its word ends with it. -/
def Marked (cs : List Char) : Prop :=
  ∃ word rest, cs = word ++ rest ∧ word.map Char.toUpper ∈ markers ∧ Text.closesWord rest = true

/-- How a comment opens behind some text.  A star opens a comment only as the first visible
character of its line, and then the blanks in front of it belong to the opener. -/
inductive Opener (front : List Char) : List Char → Prop
  | slashes : Opener front ['/', '/']
  | hash : Opener front ['#']
  | markup : Opener front ['<', '!', '-', '-']
  /-- A slash and one star or more. -/
  | block (stars : Nat) : Opener front ('/' :: List.replicate (stars + 1) '*')
  /-- A leading star, from the beginning of its line. -/
  | star {blanks : List Char} (hline : front = [] ∨ front.getLast? = some '\n')
      (hblanks : EmptyHandler.Inline blanks) : Opener front (blanks ++ ['*'])

/-- A comment starts behind `front`, and it is marked. -/
def MarkedComment (front cs : List Char) : Prop :=
  ∃ opener blanks rest, cs = opener ++ (blanks ++ rest) ∧ Opener front opener ∧
    EmptyHandler.Inline blanks ∧ Marked rest

/-! ## The marker -/

/-- A word in any case is the start of a text that is the word in capitals. -/
theorem isWord_iff {word cs : List Char} :
    isWord word cs = true ↔ ∃ spelled rest, cs = spelled ++ rest ∧
      spelled.map Char.toUpper = word ∧ Text.closesWord rest = true := by
  unfold isWord
  rw [Bool.and_eq_true, beq_iff_eq]
  constructor
  · rintro ⟨hword, hcloses⟩
    exact ⟨_, _, (List.take_append_drop word.length cs).symm, hword, hcloses⟩
  · rintro ⟨spelled, rest, rfl, rfl, hcloses⟩
    rw [List.length_map, List.take_left, List.drop_left]
    exact ⟨rfl, hcloses⟩

theorem marked_iff {cs : List Char} :
    Marked cs ↔ ∃ word ∈ markers, isWord word cs = true := by
  simp only [isWord_iff, Marked]
  constructor
  · rintro ⟨word, rest, rfl, hmem, hcloses⟩
    exact ⟨_, hmem, word, rest, rfl, rfl, hcloses⟩
  · rintro ⟨-, hmem, word, rest, rfl, rfl, hcloses⟩
    exact ⟨word, rest, rfl, hmem, hcloses⟩

/-- A marker starts with a letter. -/
theorem Marked.exists_cons {cs : List Char} (h : Marked cs) :
    ∃ c rest, cs = c :: rest ∧ Text.isInline c = false ∧ c ≠ '*' := by
  obtain ⟨word, rest, rfl, hmem, -⟩ := h
  have hfirst : ∀ w ∈ markers, w.head?.any Char.isUpper = true := by decide
  have hne : word ≠ [] := by
    rintro rfl
    revert hmem
    decide
  obtain ⟨c, word, rfl⟩ := List.exists_cons_of_ne_nil hne
  have hletter : c.toUpper.isUpper = true := by simpa using hfirst _ hmem
  refine ⟨c, word ++ rest, rfl, ?_, ?_⟩
  · rw [← Bool.not_eq_true]
    intro hblank
    simp only [Text.isInline, Bool.or_eq_true, beq_iff_eq] at hblank
    rcases hblank with rfl | rfl
    · revert hletter
      decide
    · revert hletter
      decide
  · rintro rfl
    revert hletter
    decide

theorem Marked.dropWhile_inline {blanks cs : List Char} (h : Marked cs)
    (hblanks : EmptyHandler.Inline blanks) : (blanks ++ cs).dropWhile Text.isInline = cs := by
  obtain ⟨c, rest, rfl, hc, -⟩ := h.exists_cons
  exact EmptyHandler.dropWhile_inline_append hblanks hc rest

theorem markerFollows_iff {cs : List Char} :
    markerFollows cs = true ↔
      ∃ blanks rest, cs = blanks ++ rest ∧ EmptyHandler.Inline blanks ∧ Marked rest := by
  have hmarked : markerFollows cs = true ↔ Marked (cs.dropWhile Text.isInline) := by
    rw [marked_iff]
    simp [markerFollows, markers, or_assoc]
  rw [hmarked]
  constructor
  · exact fun h => ⟨_, _, List.takeWhile_append_dropWhile.symm,
      EmptyHandler.inline_takeWhile cs, h⟩
  · rintro ⟨blanks, rest, rfl, hblanks, hrest⟩
    rwa [hrest.dropWhile_inline hblanks]

/-! ## The opener -/

/-- Stars in front of a marker are all stars there are. -/
theorem dropWhile_stars {cs : List Char} (h : markerFollows cs = true) (stars : Nat) :
    (List.replicate stars '*' ++ cs).dropWhile (· == '*') = cs := by
  obtain ⟨blanks, rest, rfl, hblanks, hrest⟩ := markerFollows_iff.1 h
  obtain ⟨c, rest, rfl, -, hc⟩ := hrest.exists_cons
  rw [List.dropWhile_append_of_pos (by simp)]
  -- Neither a blank nor the first letter of a marker is a star.
  cases blanks with
  | nil => exact List.dropWhile_cons_of_neg (by simpa using hc)
  | cons b blanks =>
      refine List.dropWhile_cons_of_neg fun hb => ?_
      obtain rfl : b = '*' := by simpa using hb
      exact absurd (hblanks '*' List.mem_cons_self) (by decide)

/-- A comment that is found without looking at its line is a marked one. -/
theorem markedComment_of_opensComment {cs : List Char} (h : opensComment cs = true)
    (front : List Char) : MarkedComment front cs := by
  have hmarked : ∀ {opener rest}, Opener front opener → markerFollows rest = true →
      MarkedComment front (opener ++ rest) := by
    intro opener rest hopener hrest
    obtain ⟨blanks, marker, rfl, hblanks, hmarker⟩ := markerFollows_iff.1 hrest
    exact ⟨opener, blanks, marker, rfl, hopener, hblanks, hmarker⟩
  unfold opensComment at h
  split at h
  · exact hmarked .slashes h
  · exact hmarked .hash h
  · exact hmarked .markup h
  · next cs =>
    -- The stars that were skipped belong to the opener.
    have hstars : cs.takeWhile (· == '*') =
        List.replicate (cs.takeWhile (· == '*')).length '*' := by
      refine List.eq_replicate_of_mem fun c hc => ?_
      exact beq_iff_eq.1 (List.all_eq_true.1 List.all_takeWhile c hc)
    have hsplit : '/' :: '*' :: cs =
        '/' :: List.replicate ((cs.takeWhile (· == '*')).length + 1) '*' ++
          cs.dropWhile (· == '*') := by
      rw [List.replicate_succ, ← hstars, List.cons_append, List.cons_append,
        List.takeWhile_append_dropWhile]
    rw [hsplit]
    exact hmarked (.block _) h
  · cases h

theorem opensStarLine_iff {cs : List Char} :
    opensStarLine cs = true ↔ ∃ blanks rest, cs = blanks ++ '*' :: rest ∧
      EmptyHandler.Inline blanks ∧ markerFollows rest = true := by
  constructor
  · intro h
    unfold opensStarLine at h
    split at h
    · next rest hdrop =>
      refine ⟨cs.takeWhile Text.isInline, rest, ?_, EmptyHandler.inline_takeWhile cs, h⟩
      rw [← hdrop, List.takeWhile_append_dropWhile]
    · cases h
  · rintro ⟨blanks, rest, rfl, hblanks, hrest⟩
    rw [opensStarLine, EmptyHandler.dropWhile_inline_append hblanks (by decide)]
    exact hrest

theorem startsLine_iff {front : List Char} :
    startsLine front.getLast? = true ↔ front = [] ∨ front.getLast? = some '\n' := by
  cases hlast : front.getLast? with
  | none => simpa [startsLine] using hlast
  | some c =>
      have hne : front ≠ [] := by
        rintro rfl
        cases hlast
      simp [startsLine, hne]

/-- A place passes the test exactly if a marked comment starts there. -/
theorem opensAt_iff (front cs : List Char) :
    opensAt front.getLast? cs = true ↔ MarkedComment front cs := by
  rw [opensAt, Bool.or_eq_true, Bool.and_eq_true, startsLine_iff]
  constructor
  · rintro (hcomment | ⟨hline, hstar⟩)
    · exact markedComment_of_opensComment hcomment front
    · obtain ⟨blanks, rest, rfl, hblanks, hrest⟩ := opensStarLine_iff.1 hstar
      obtain ⟨gap, marker, rfl, hgap, hmarker⟩ := markerFollows_iff.1 hrest
      exact ⟨blanks ++ ['*'], gap, marker, by simp, .star hline hblanks, hgap, hmarker⟩
  · rintro ⟨opener, blanks, marker, rfl, hopener, hblanks, hmarker⟩
    -- What is behind the opener passes the test of a marker, whichever opener it is.
    have hrest : markerFollows (blanks ++ marker) = true :=
      markerFollows_iff.2 ⟨blanks, marker, rfl, hblanks, hmarker⟩
    cases hopener with
    | slashes => exact .inl hrest
    | hash => exact .inl hrest
    | markup => exact .inl hrest
    | block stars =>
        left
        show markerFollows
          ((List.replicate stars '*' ++ (blanks ++ marker)).dropWhile (· == '*')) = true
        rwa [dropWhile_stars hrest]
    | star hline hindent =>
        exact .inr ⟨hline, opensStarLine_iff.2 ⟨_, _, by simp, hindent, hrest⟩⟩

/-! ## What is reported -/

/-- The rule reports a marker exactly if there is a marked comment, and then at the place where the
first one starts. -/
theorem check_of_marked_comments (text : List Char) :
    ((check text).isSome = true ↔ ∃ front rest, text = front ++ rest ∧ MarkedComment front rest) ∧
    ∀ d, check text = some d ↔ ∃ offset, IsLeast (Text.startsOf MarkedComment text) offset ∧
      d = ⟨.unresolvedMarker, offset, message⟩ := by
  refine ⟨?_, fun d => ?_⟩
  · rw [check, Option.isSome_map, Text.first?_isSome_iff_nonempty opensAt_iff]
    constructor
    · rintro ⟨-, front, rest, htext, -, hstarts⟩
      exact ⟨front, rest, htext, hstarts⟩
    · rintro ⟨front, rest, htext, hstarts⟩
      exact ⟨_, front, rest, htext, rfl, hstarts⟩
  · rw [check, Option.map_eq_some_iff]
    simp only [Text.first?_eq_some_iff_isLeast opensAt_iff, eq_comm]

/-- The last two of three slashes open the comment. -/
example : check "/// ToDo: x\n\t* XXX".toList = some ⟨.unresolvedMarker, 1, message⟩ := by
  decide +kernel

end UnresolvedMarker
end Neatness
