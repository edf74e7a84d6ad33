import Neatness.Detection.AbsolutePath
import Neatness.Detection.DeepIndentation
import Neatness.Detection.EmptyHandler
import Neatness.Detection.UnresolvedMarker
import Neatness.Proofs.Search

/-!
# Tests of a place in front of more text

`Text.Probe.Lasts` is a test that a line break and more text never turn from true to false.  The tests
of the rules that look for one place are all of this kind: what they need stands in front of the line
break, or is the end of a word, which the line break is too.
-/

namespace Neatness

namespace Text

/-- A test that stays true when a line break and anything else are added. -/
def Probe.Lasts (probe : Probe) : Prop :=
  ∀ before cs added, probe before cs = true → probe before (cs ++ '\n' :: added) = true

theorem Probe.Lasts.firstFrom {probe : Probe} (h : probe.Lasts) {before : Option Char}
    {offset : Nat} {cs : List Char} (added : List Char)
    (hfound : (firstFrom probe before offset cs).isSome = true) :
    (Text.firstFrom probe before offset (cs ++ '\n' :: added)).isSome = true := by
  induction cs generalizing before offset with
  | nil =>
      have hprobe : probe before [] = true := by
        by_cases hprobe : probe before [] = true
        · exact hprobe
        · simp [Text.firstFrom, hprobe] at hfound
      have hlasts : probe before ('\n' :: added) = true := h before [] added hprobe
      simp [Text.firstFrom, hlasts]
  | cons c cs ih =>
      rw [List.cons_append, Text.firstFrom]
      by_cases hprobe : probe before (c :: cs) = true
      · have hlasts : probe before (c :: (cs ++ '\n' :: added)) = true :=
          h before (c :: cs) added hprobe
        simp [hlasts]
      · rw [Text.firstFrom, if_neg hprobe] at hfound
        split
        · rfl
        · exact ih hfound

@[simp] theorem closesWord_append_newline (cs added : List Char) :
    closesWord (cs ++ '\n' :: added) = closesWord cs := by
  cases cs with
  | nil =>
      show (!isWordChar '\n') = true
      decide
  | cons c cs => rfl

end Text

namespace AbsolutePath

theorem startsWithDrive_append {cs : List Char} (h : startsWithDrive cs = true)
    (more : List Char) : startsWithDrive (cs ++ more) = true := by
  unfold startsWithDrive at h
  split at h
  · exact h
  · cases h

theorem startsWithFolder_append {cs : List Char} (h : startsWithFolder cs = true)
    (more : List Char) : startsWithFolder (cs ++ more) = true := by
  unfold startsWithFolder at h
  split at h
  · rename_i cs
    simp only [Bool.and_eq_true, Text.drop_length_takeWhile] at h
    obtain ⟨hname, hslash⟩ := h
    obtain ⟨rest, hrest⟩ : ∃ rest, cs.dropWhile Text.isWordChar = '/' :: rest := by
      cases hdrop : cs.dropWhile Text.isWordChar with
      | nil => simp [hdrop] at hslash
      | cons c rest =>
          rw [hdrop] at hslash
          have hc : c = '/' := by simpa using hslash
          exact ⟨rest, by rw [hc]⟩
    have htake : (cs ++ more).takeWhile Text.isWordChar = cs.takeWhile Text.isWordChar := by
      rw [List.takeWhile_append, if_neg]
      intro hlength
      have hsplit := List.takeWhile_append_dropWhile (p := Text.isWordChar) (l := cs)
      have := congrArg List.length hsplit
      rw [List.length_append, hrest, List.length_cons] at this
      omega
    rw [List.cons_append, startsWithFolder, htake]
    simp only [Bool.and_eq_true]
    refine ⟨hname, ?_⟩
    rw [← htake, Text.drop_length_takeWhile, Text.dropWhile_append_of_eq_cons hrest]
    simp
  · cases h

theorem opensAt_lasts : Text.Probe.Lasts opensAt := by
  intro before cs added h
  cases cs with
  | nil => simp [opensAt] at h
  | cons c cs =>
      simp only [opensAt, Bool.and_eq_true, Bool.or_eq_true] at h
      rw [List.cons_append]
      simp only [opensAt, Bool.and_eq_true, Bool.or_eq_true]
      refine ⟨h.1, h.2.imp ?_ ?_⟩
      · exact fun hdrive => startsWithDrive_append hdrive _
      · exact fun hfolder => startsWithFolder_append hfolder _

end AbsolutePath

namespace UnresolvedMarker

theorem isWord_append {word cs : List Char} (h : isWord word cs = true) (added : List Char) :
    isWord word (cs ++ '\n' :: added) = true := by
  simp only [isWord, Bool.and_eq_true, beq_iff_eq] at h ⊢
  have hlength : word.length ≤ cs.length := by
    have := congrArg List.length h.1
    rw [List.length_map, List.length_take] at this
    omega
  rw [List.take_append_of_le_length hlength, List.drop_append_of_le_length hlength]
  simpa using h

theorem markerFollows_append {cs : List Char} (h : markerFollows cs = true)
    (added : List Char) : markerFollows (cs ++ '\n' :: added) = true := by
  simp only [markerFollows, Bool.or_eq_true] at h ⊢
  rw [Text.dropWhile_append_cons (by decide)]
  rcases h with (h | h) | h
  · exact .inl (.inl (isWord_append h added))
  · exact .inl (.inr (isWord_append h added))
  · exact .inr (isWord_append h added)

theorem opensComment_append {cs : List Char} (h : opensComment cs = true) (added : List Char) :
    opensComment (cs ++ '\n' :: added) = true := by
  unfold opensComment at h
  split at h
  · exact markerFollows_append h added
  · exact markerFollows_append h added
  · exact markerFollows_append h added
  · rw [List.cons_append, List.cons_append, opensComment,
      Text.dropWhile_append_cons (by decide)]
    exact markerFollows_append h added
  · cases h

theorem opensStarLine_append {cs : List Char} (h : opensStarLine cs = true)
    (added : List Char) : opensStarLine (cs ++ '\n' :: added) = true := by
  unfold opensStarLine at h ⊢
  rw [Text.dropWhile_append_cons (by decide)]
  split at h
  · rename_i hdrop
    rw [hdrop]
    exact markerFollows_append h added
  · cases h

theorem opensAt_lasts : Text.Probe.Lasts opensAt := by
  intro before cs added h
  simp only [opensAt, Bool.or_eq_true, Bool.and_eq_true] at h ⊢
  refine h.imp ?_ ?_
  · exact fun hcomment => opensComment_append hcomment added
  · exact fun hline => ⟨hline.1, opensStarLine_append hline.2 added⟩

end UnresolvedMarker

namespace DeepIndentation

theorem blanksFollow_append {n : Nat} {cs : List Char} (h : blanksFollow n cs = true)
    (more : List Char) : blanksFollow n (cs ++ more) = true := by
  induction n generalizing cs with
  | zero => rfl
  | succ n ih =>
      cases cs with
      | nil => simp [blanksFollow] at h
      | cons c cs =>
          rw [List.cons_append]
          simp only [blanksFollow, Bool.and_eq_true] at h ⊢
          exact ⟨h.1, ih h.2⟩

theorem opensAt_lasts : Text.Probe.Lasts opensAt := by
  intro before cs added h
  simp only [opensAt, Bool.and_eq_true] at h ⊢
  exact ⟨h.1, blanksFollow_append h.2 _⟩

end DeepIndentation

namespace EmptyHandler

theorem afterWord?_append {word : List Char} (hword : '\n' ∉ word) {before : Option Char}
    {cs rest : List Char} (h : afterWord? word before cs = some rest) (added : List Char) :
    afterWord? word before (cs ++ '\n' :: added) = some (rest ++ '\n' :: added) := by
  simp only [afterWord?, Option.ite_none_right_eq_some, Bool.and_eq_true, Option.some.injEq] at h ⊢
  obtain ⟨⟨⟨hopens, hleads⟩, hcloses⟩, rfl⟩ := h
  have hlength : word.length ≤ cs.length :=
    (List.isPrefixOf_iff_prefix.1 hleads).length_le
  rw [Text.isPrefixOf_append_cons hword, List.drop_append_of_le_length hlength]
  simp [hopens, hleads, hcloses]

theorem emptyBlock_append {cs : List Char} (h : emptyBlock cs = true) (more : List Char) :
    emptyBlock (cs ++ more) = true := by
  unfold emptyBlock at h ⊢
  split at h
  · cases h
  · rename_i c inner hdrop
    simp only [Bool.and_eq_true, beq_iff_eq] at h
    obtain ⟨close, rest, hinner⟩ := List.exists_cons_of_ne_nil
      (l := inner.dropWhile Text.isBlank) (by intro hnil; simp [hnil] at h)
    rw [Text.dropWhile_append_of_eq_cons hdrop]
    simp only [Bool.and_eq_true, beq_iff_eq]
    rw [Text.dropWhile_append_of_eq_cons hinner]
    rw [hinner] at h
    exact h

theorem emptyBody_append {cs : List Char} (h : emptyBody cs = true) (more : List Char) :
    emptyBody (cs ++ more) = true := by
  unfold emptyBody at h
  split at h
  · rename_i inner hdrop
    -- The parameter ends inside the old text, or else nothing would be left for the block.
    obtain ⟨close, rest, hinner⟩ := List.exists_cons_of_ne_nil
      (l := inner.dropWhile (· != ')')) (by intro hnil; simp [hnil, emptyBlock] at h)
    rw [hinner] at h
    rw [emptyBody, Text.dropWhile_append_of_eq_cons hdrop]
    show emptyBlock (((inner ++ more).dropWhile (· != ')')).drop 1) = true
    rw [Text.dropWhile_append_of_eq_cons hinner]
    exact emptyBlock_append h more
  · rename_i hparen
    cases hdrop : cs.dropWhile Text.isBlank with
    | nil => simp [hdrop, emptyBlock] at h
    | cons c rest =>
        rw [hdrop] at h
        rw [emptyBody, Text.dropWhile_append_of_eq_cons hdrop]
        split
        · rename_i inner heq
          obtain ⟨rfl, -⟩ := List.cons.inj heq
          exact absurd hdrop (hparen rest)
        · rename_i hother
          exact emptyBlock_append h more

theorem catchAt_lasts : Text.Probe.Lasts catchAt := by
  intro before cs added h
  unfold catchAt at h ⊢
  split at h
  · rename_i rest hafter
    rw [afterWord?_append (by decide) hafter]
    exact emptyBody_append h _
  · cases h

theorem idle_append {cs : List Char} (h : idle cs = true) (added : List Char) :
    idle (cs ++ '\n' :: added) = true := by
  simp only [idle, Bool.or_eq_true, Bool.and_eq_true] at h ⊢
  rw [Text.isPrefixOf_append_cons (by decide), Text.isPrefixOf_append_cons (by decide)]
  rcases h with ⟨hpass, hcloses⟩ | hdots
  · have hlength : 4 ≤ cs.length := (List.isPrefixOf_iff_prefix.1 hpass).length_le
    rw [List.drop_append_of_le_length hlength]
    exact .inl ⟨hpass, by simpa using hcloses⟩
  · exact .inr hdots

theorem idleNextLine_append {cs : List Char} (h : idleNextLine cs = true) (added : List Char) :
    idleNextLine (cs ++ '\n' :: added) = true := by
  unfold idleNextLine at h
  split at h
  · rw [List.cons_append, idleNextLine, Text.dropWhile_append_cons (by decide)]
    exact idle_append h added
  · rw [List.cons_append, List.cons_append, idleNextLine, Text.dropWhile_append_cons (by decide)]
    exact idle_append h added
  · cases h

theorem idleFollows_append {cs : List Char} (h : idleFollows cs = true) (added : List Char) :
    idleFollows (cs ++ '\n' :: added) = true := by
  simp only [idleFollows, Bool.or_eq_true] at h ⊢
  exact h.imp (fun h => idle_append h added) fun h => idleNextLine_append h added

theorem idleBehindComment_append {cs : List Char} (h : idleBehindComment cs = true)
    (added : List Char) : idleBehindComment (cs ++ '\n' :: added) = true := by
  induction cs with
  | nil => exact absurd h (by decide)
  | cons c cs ih =>
      rw [List.cons_append]
      simp only [idleBehindComment, Bool.or_eq_true, Bool.and_eq_true] at h ⊢
      refine h.imp ?_ ?_
      · exact fun hidle => idleFollows_append hidle added
      · exact fun hlater => ⟨hlater.1, ih hlater.2⟩

theorem idleBody_append {cs : List Char} (h : idleBody cs = true) (added : List Char) :
    idleBody (cs ++ '\n' :: added) = true := by
  unfold idleBody at h ⊢
  rw [Text.dropWhile_append_cons (by decide)]
  split at h
  · rename_i comment hdrop
    rw [hdrop]
    exact idleBehindComment_append h added
  · rename_i hcomment
    cases hdrop : cs.dropWhile Text.isInline with
    | nil =>
        rw [hdrop] at h
        exact absurd h (by decide)
    | cons c rest =>
        rw [hdrop] at h
        split
        · rename_i comment heq
          obtain ⟨rfl, -⟩ := List.cons.inj heq
          exact absurd hdrop (hcomment rest)
        · exact idleFollows_append h added

theorem exceptAt_lasts : Text.Probe.Lasts exceptAt := by
  intro before cs added h
  unfold exceptAt at h ⊢
  split at h
  · rename_i rest hafter
    rw [afterWord?_append (by decide) hafter]
    split at h
    · rename_i body hdrop
      simp only
      rw [Text.dropWhile_append_of_eq_cons hdrop]
      exact idleBody_append h added
    · cases h
  · cases h

end EmptyHandler

end Neatness
