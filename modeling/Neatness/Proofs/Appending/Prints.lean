import Mathlib.Data.List.Infix
import Neatness.Detection.DebugPrint
import Neatness.Proofs.Appending.Probes
import Neatness.Proofs.LoopBody

/-!
# Prints in front of more text

Prints and loop bodies of a text are the first ones of the text with a line break and more text behind
it.

* `Text.Form.Settles` is a form that either stands in the same places or stood nowhere before.
  Prints do so since a call that is only now completed is all blank behind its first word
  (`DebugPrint.Hangs`), and a text of that kind holds no print yet.
* `starts_prefix` and `exists_loopOpeners_append` say that old prints and old loop bodies come
  first, and `firstInside_append` that the walk over the old text goes the same way.
-/

namespace Neatness

/-! ## Forms -/

namespace Text

/-- A form that takes up nothing of what is added behind a line break: it stands where it stood, or
it stood nowhere in the text. -/
def Form.Settles (form : Form) : Prop :=
  ∀ cs added, form (cs ++ '\n' :: added) = form cs ∨ ∀ u, u <:+ cs → form u = none

/-- The places of such a form come first among those in the longer text. -/
theorem Form.Settles.starts_prefix {form : Form} (h : form.Settles) {opens : Option Char → Bool}
    {before : Option Char} {offset skip : Nat} (cs added : List Char) :
    (occurrencesFrom opens form before offset skip cs).map (·.start) <+:
      (occurrencesFrom opens form before offset skip (cs ++ '\n' :: added)).map (·.start) := by
  induction cs generalizing before offset skip with
  | nil => exact List.nil_prefix
  | cons c cs ih =>
      rcases h (c :: cs) added with hsame | hnone
      · cases skip with
        | succ skip =>
            rw [List.cons_append, occurrencesFrom, occurrencesFrom]
            exact ih
        | zero =>
            rw [List.cons_append] at hsame ⊢
            rw [occurrencesFrom, occurrencesFrom, hsame]
            cases hform : (if opens before then form (c :: cs) else none) with
            | none => exact ih
            | some n => exact (List.prefix_cons_inj offset).2 ih
      · rw [occurrencesFrom_eq_nil hnone]
        exact List.nil_prefix

/-- A word, blanks and another word. -/
def spaced (word other : List Char) : Form :=
  (literal word).andThen ((run isBlank).andThen (literal other))

theorem literal_append {word : List Char} (hword : '\n' ∉ word) (cs added : List Char) :
    literal word (cs ++ '\n' :: added) = literal word cs := by
  unfold literal
  rw [isPrefixOf_append_cons hword]

/-- The end of a word is where it was. -/
theorem word_append {word : List Char} (hword : '\n' ∉ word) (cs added : List Char) :
    ((literal word).andThen (wordEnd closesWord)) (cs ++ '\n' :: added) =
      ((literal word).andThen (wordEnd closesWord)) cs := by
  unfold Form.andThen
  rw [literal_append hword]
  unfold literal
  split
  · rfl
  · rename_i n hn
    simp only [Option.ite_none_right_eq_some, Option.some.injEq] at hn
    obtain ⟨hleads, rfl⟩ := hn
    have hlength := (List.isPrefixOf_iff_prefix.1 hleads).length_le
    rw [List.drop_append_of_le_length hlength, wordEnd, wordEnd, closesWord_append_newline]

/-- A word, blanks and another word stand where they stood, unless the text was all blank behind
the first word. -/
theorem spaced_append {word other cs : List Char} (hword : '\n' ∉ word) (hother : '\n' ∉ other)
    (hvisible : ∀ blanks, cs = word ++ blanks → ∃ c ∈ blanks, isBlank c = false)
    (added : List Char) : spaced word other (cs ++ '\n' :: added) = spaced word other cs := by
  unfold spaced Form.andThen
  rw [literal_append hword]
  unfold literal
  split
  · rfl
  · rename_i n hn
    simp only [Option.ite_none_right_eq_some, Option.some.injEq] at hn
    obtain ⟨hleads, rfl⟩ := hn
    obtain ⟨rest, rfl⟩ := List.isPrefixOf_iff_prefix.1 hleads
    obtain ⟨c, hc, hblank⟩ := hvisible rest rfl
    rw [List.append_assoc, List.drop_left, List.drop_left]
    have htake : (rest ++ '\n' :: added).takeWhile isBlank = rest.takeWhile isBlank := by
      rw [List.takeWhile_append, if_neg]
      intro hlength
      have hall : rest.takeWhile isBlank = rest :=
        (List.takeWhile_prefix isBlank).eq_of_length hlength
      rw [← hall] at hc
      exact absurd (List.all_eq_true.1 List.all_takeWhile c hc) (by simp [hblank])
    have hle : (rest.takeWhile isBlank).length ≤ rest.length :=
      (List.takeWhile_prefix isBlank).length_le
    simp only [run, htake]
    rw [List.drop_append_of_le_length hle, isPrefixOf_append_cons hother]

/-- A word, blanks and another word hold the characters of the other word. -/
theorem mem_of_spaced {word other cs : List Char} {n : Nat} (h : spaced word other cs = some n)
    {c : Char} (hc : c ∈ other) : c ∈ cs := by
  unfold spaced Form.andThen at h
  split at h
  · cases h
  · rename_i k hk
    obtain ⟨m, hm, -⟩ := Option.map_eq_some_iff.1 h
    simp only [run, Option.map_eq_some_iff, literal, Option.ite_none_right_eq_some] at hm
    obtain ⟨-, ⟨hleads, -⟩, -⟩ := hm
    have hmem := (List.isPrefixOf_iff_prefix.1 hleads).subset hc
    exact List.mem_of_mem_drop (List.mem_of_mem_drop hmem)

/-- A word without blanks that stands at the start of some text and blanks stands in the text. -/
theorem prefix_of_prefix_append_blanks {word cs blanks : List Char}
    (hword : ∀ c ∈ word, isBlank c = false) (hblanks : ∀ c ∈ blanks, isBlank c = true)
    (h : word <+: cs ++ blanks) : word <+: cs := by
  induction word generalizing cs with
  | nil => exact List.nil_prefix
  | cons w word ih =>
      have hw := hword w List.mem_cons_self
      cases cs with
      | nil =>
          rw [List.nil_append] at h
          have hmem := hblanks w (h.subset List.mem_cons_self)
          rw [hw] at hmem
          cases hmem
      | cons c cs =>
          rw [List.cons_append, List.cons_prefix_cons] at h
          rw [List.cons_prefix_cons]
          exact ⟨h.1, ih (fun c hc => hword c (List.mem_cons_of_mem w hc)) h.2⟩

end Text

namespace DebugPrint

/-- A print that is only begun: the first word of a call, or of an output by the shift operator, and
blanks up to the end. -/
def Hangs (cs : List Char) : Prop :=
  ∃ word ∈ callWords ++ ["cout".toList], ∃ blanks, cs = word ++ blanks ∧
    ∀ c ∈ blanks, Text.isBlank c = true

/-- The first words of prints hold nothing that completes a print, nor a print without
parentheses. -/
theorem hanging_words : ∀ word ∈ callWords ++ ["cout".toList],
    '\n' ∉ word ∧ '(' ∉ word ∧ '<' ∉ word ∧
      ∀ u ∈ word.tails, ¬"puts".toList <+: u ∧ ¬"std::cout".toList <+: u := by
  decide +kernel

/-- The prints without parentheses hold no blanks. -/
theorem visible_bareWords :
    (∀ c ∈ "puts".toList, Text.isBlank c = false) ∧
      ∀ c ∈ "std::cout".toList, Text.isBlank c = false := by
  have hall : ("puts".toList ++ "std::cout".toList).all (fun c => !Text.isBlank c) = true := by
    decide +kernel
  have hvisible : ∀ c ∈ "puts".toList ++ "std::cout".toList, Text.isBlank c = false := by
    intro c hc
    simpa using List.all_eq_true.1 hall c hc
  exact ⟨fun c hc => hvisible c (List.mem_append_left _ hc),
    fun c hc => hvisible c (List.mem_append_right _ hc)⟩

theorem callOf_eq (words : List (List Char)) (cs : List Char) :
    callOf words cs = words.findSome? fun word => Text.spaced word ['('] cs := rfl

theorem findSome?_congr {α β : Type} {f g : α → Option β} {l : List α}
    (h : ∀ a ∈ l, f a = g a) : l.findSome? f = l.findSome? g := by
  induction l with
  | nil => rfl
  | cons a l ih =>
      rw [List.findSome?_cons, List.findSome?_cons, h a List.mem_cons_self,
        ih fun b hb => h b (List.mem_cons_of_mem a hb)]

/-- A text with a hanging print has no print yet. -/
theorem form_eq_none_of_hangs {cs u : List Char} (h : Hangs cs) (hu : u <:+ cs) :
    form u = none := by
  obtain ⟨word, hword, blanks, rfl, hblanks⟩ := h
  obtain ⟨-, hparen, hshift, htails⟩ := hanging_words word hword
  -- A suffix of the text is a suffix of the word, with blanks behind it.
  obtain ⟨v, hv, bs, hbs, rfl⟩ : ∃ v, v <:+ word ∧ ∃ bs, (∀ c ∈ bs, Text.isBlank c = true) ∧
      u = v ++ bs := by
    obtain ⟨before, hbefore⟩ := hu
    rcases List.append_eq_append_iff.1 hbefore with ⟨v, hv, rfl⟩ | ⟨gone, -, hgone⟩
    · exact ⟨v, ⟨before, hv.symm⟩, blanks, hblanks, rfl⟩
    · refine ⟨[], List.nil_suffix, u, fun c hc => hblanks c ?_, rfl⟩
      rw [hgone]
      exact List.mem_append_right gone hc
  have hspaced : ∀ first other : List Char, ∀ c ∈ other, c ∉ word → Text.isBlank c = false →
      Text.spaced first other (v ++ bs) = none := by
    intro first other c hc hcword hcblank
    cases hform : Text.spaced first other (v ++ bs) with
    | none => rfl
    | some n =>
        rcases List.mem_append.1 (Text.mem_of_spaced hform hc) with hmem | hmem
        · exact absurd (hv.subset hmem) hcword
        · exact absurd (hbs c hmem) (by simp [hcblank])
  have hbare : ∀ bare : List Char, (∀ c ∈ bare, Text.isBlank c = false) → ¬bare <+: v →
      bareWord bare (v ++ bs) = none := by
    intro bare hvisible hnot
    have hliteral : Text.literal bare (v ++ bs) = none := by
      unfold Text.literal
      rw [if_neg]
      intro hleads
      exact hnot (Text.prefix_of_prefix_append_blanks hvisible hbs
        (List.isPrefixOf_iff_prefix.1 hleads))
    rw [bareWord, Text.Form.andThen, hliteral]
  obtain ⟨hputs, hcout⟩ := htails v ((List.mem_tails v word).2 hv)
  have hcalls : callOf callWords (v ++ bs) = none := by
    rw [callOf_eq, List.findSome?_eq_none_iff]
    intro first _
    exact hspaced first ['('] '(' (by simp) hparen (by decide)
  rw [form, Text.Form.oneOf]
  simp only [List.findSome?_cons, List.findSome?_nil, hcalls,
    hbare _ visible_bareWords.1 hputs, hbare _ visible_bareWords.2 hcout]
  rw [show shiftOut (v ++ bs) = none from hspaced _ _ '<' (by simp) hshift (by decide)]

/-- A print stands where it stood, unless a hanging print is completed. -/
theorem form_append {cs : List Char} (h : ¬Hangs cs) (added : List Char) :
    form (cs ++ '\n' :: added) = form cs := by
  have hspaced : ∀ word ∈ callWords ++ ["cout".toList], ∀ other, '\n' ∉ other →
      Text.spaced word other (cs ++ '\n' :: added) = Text.spaced word other cs := by
    intro word hword other hother
    apply Text.spaced_append (hanging_words word hword).1 hother
    intro blanks hcs
    -- A text that is all blank behind the word hangs.
    cases hall : blanks.all Text.isBlank with
    | true => exact absurd ⟨word, hword, blanks, hcs, List.all_eq_true.1 hall⟩ h
    | false =>
        obtain ⟨c, hc, hblank⟩ := List.all_eq_false.1 hall
        exact ⟨c, hc, by simpa using hblank⟩
  have hcalls : callOf callWords (cs ++ '\n' :: added) = callOf callWords cs := by
    rw [callOf_eq, callOf_eq]
    apply findSome?_congr
    intro word hword
    exact hspaced word (List.mem_append_left _ hword) ['('] (by decide)
  have hshift : shiftOut (cs ++ '\n' :: added) = shiftOut cs :=
    hspaced _ (by simp) ['<', '<'] (by decide)
  have hputs : bareWord "puts".toList (cs ++ '\n' :: added) = bareWord "puts".toList cs :=
    Text.word_append (by decide +kernel) cs added
  have hcout : bareWord "std::cout".toList (cs ++ '\n' :: added) =
      bareWord "std::cout".toList cs :=
    Text.word_append (by decide +kernel) cs added
  rw [form, Text.Form.oneOf, Text.Form.oneOf]
  simp only [List.findSome?_cons, List.findSome?_nil, hcalls, hshift, hputs, hcout]

theorem form_settles : Text.Form.Settles form := by
  intro cs added
  by_cases hhangs : Hangs cs
  · exact .inr fun u hu => form_eq_none_of_hangs hhangs hu
  · exact .inl (form_append hhangs added)

/-- The prints of a text come first among those of the longer text. -/
theorem starts_prefix (text added : List Char) :
    starts text <+: starts (text ++ '\n' :: added) :=
  form_settles.starts_prefix text added

end DebugPrint

/-! ## Loop bodies -/

namespace LoopBody

/-- A loop keyword stands where it stood. -/
theorem keyword_append (cs added : List Char) :
    keyword (cs ++ '\n' :: added) = keyword cs := by
  unfold keyword Text.Form.oneOf
  simp only [List.findSome?_cons, List.findSome?_nil]
  rw [Text.word_append (by decide), Text.word_append (by decide)]

theorem length_le_of_keyword {cs : List Char} {n : Nat} (h : keyword cs = some n) :
    n ≤ cs.length := by
  obtain ⟨word, -, rest, rfl, -, rfl⟩ := keyword_eq_some_iff.1 h
  rw [List.length_append]
  exact Nat.le_add_right _ _

/-- The first brace of a window is the one that it was, or it stands in what was added, and then
the old text has no brace. -/
theorem braceWithin_append (window offset : Nat) (cs added : List Char) :
    braceWithin window offset (cs ++ added) = braceWithin window offset cs ∨
      ∃ b, braceWithin window offset (cs ++ added) = some b ∧
        offset + Text.byteLength cs ≤ b ∧ openBrace ∉ cs := by
  induction cs generalizing window offset with
  | nil =>
      rw [List.nil_append]
      cases hbrace : braceWithin window offset added with
      | none => exact .inl rfl
      | some b =>
          obtain ⟨header, -, -, -, -, rfl⟩ := braceWithin_eq_some_iff.1 hbrace
          exact .inr ⟨_, rfl, by simp, by simp⟩
  | cons c cs ih =>
      rw [List.cons_append, braceWithin, braceWithin]
      by_cases hwindow : window = 0
      · simp [hwindow]
      rw [if_neg hwindow, if_neg hwindow]
      by_cases hbrace : c = openBrace
      · simp [hbrace]
      rw [if_neg hbrace, if_neg hbrace]
      rcases ih (window - c.utf8Size) (offset + c.utf8Size) with hsame | ⟨b, hb, hle, hnot⟩
      · exact .inl hsame
      · refine .inr ⟨b, hb, ?_, ?_⟩
        · rw [Text.byteLength_cons]
          omega
        · rw [List.mem_cons, not_or]
          exact ⟨fun h => hbrace h.symm, hnot⟩

/-- The brace of a keyword is the one that it had, or it stands in what was added, and then the old
text has no brace behind the keyword. -/
theorem opener?_append (offset : Nat) {n : Nat} {here : List Char} (hn : n ≤ here.length)
    (added : List Char) :
    opener? ⟨offset, here ++ added, n⟩ = opener? ⟨offset, here, n⟩ ∨
      ∃ b, opener? ⟨offset, here ++ added, n⟩ = some b ∧
        offset + Text.byteLength here ≤ b ∧ openBrace ∉ here.drop n := by
  have hlength : Text.byteLength here =
      Text.byteLength (here.take n) + Text.byteLength (here.drop n) := by
    rw [← Text.byteLength_append, List.take_append_drop]
  unfold opener? Text.Occurrence.stop Text.Occurrence.rest
  simp only [List.take_append_of_le_length hn, List.drop_append_of_le_length hn]
  rcases braceWithin_append headerWindow (offset + Text.byteLength (here.take n)) (here.drop n)
    added with hsame | ⟨b, hb, hle, hnot⟩
  · exact .inl hsame
  · exact .inr ⟨b, hb, by omega, hnot⟩

/-- A keyword in front of others keeps the old braces in front of all others: it has the brace that it
had, or it has a new one, and then no keyword behind it had one. -/
theorem exists_openers_cons_append {k k' : Text.Occurrence} {l l' : List Text.Occurrence}
    {later : List Nat} {stop : Nat}
    (heq : l'.filterMap opener? = l.filterMap opener? ++ later) (hle : ∀ b ∈ later, stop ≤ b)
    (hk : opener? k' = opener? k ∨ ∃ b, opener? k' = some b ∧ stop ≤ b ∧ opener? k = none ∧
      l.filterMap opener? = []) :
    ∃ later, (k' :: l').filterMap opener? = (k :: l).filterMap opener? ++ later ∧
      ∀ b ∈ later, stop ≤ b := by
  rcases hk with hsame | ⟨b, hb, hend, hnone, hempty⟩
  · refine ⟨later, ?_, hle⟩
    rw [List.filterMap_cons, List.filterMap_cons, hsame, heq]
    cases opener? k <;> rfl
  · refine ⟨b :: later, ?_, List.forall_mem_cons.2 ⟨hend, hle⟩⟩
    rw [List.filterMap_cons_some hb, List.filterMap_cons_none hnone, heq, hempty]
    rfl

/-- The braces of the old keywords come first, and all others stand in what was added. -/
theorem exists_openers_append (before : Option Char) (offset skip : Nat)
    (cs added : List Char) :
    ∃ later, (Text.occurrencesFrom Text.opensWord keyword before offset skip
        (cs ++ '\n' :: added)).filterMap opener? =
          (Text.occurrencesFrom Text.opensWord keyword before offset skip cs).filterMap opener? ++
            later ∧
      ∀ b ∈ later, offset + Text.byteLength cs ≤ b := by
  induction cs generalizing before offset skip with
  | nil =>
      refine ⟨_, rfl, ?_⟩
      intro b hb
      obtain ⟨k, hk, hopener⟩ := List.mem_filterMap.1 hb
      have hstart := Text.le_start_of_mem hk
      have hbrace := (opener?_bounds hopener).1
      rw [Text.byteLength_nil]
      omega
  | cons c cs ih =>
      have hsame : keyword (c :: (cs ++ '\n' :: added)) = keyword (c :: cs) :=
        keyword_append (c :: cs) added
      cases skip with
      | succ skip =>
          rw [List.cons_append, Text.occurrencesFrom, Text.occurrencesFrom]
          rw [Text.byteLength_cons, ← Nat.add_assoc]
          exact ih _ _ _
      | zero =>
          rw [List.cons_append, Text.occurrencesFrom, Text.occurrencesFrom, hsame]
          cases hform : (if Text.opensWord before then keyword (c :: cs) else none) with
          | none =>
              rw [Text.byteLength_cons, ← Nat.add_assoc]
              exact ih _ _ _
          | some n =>
              have hn : n ≤ (c :: cs).length := by
                split at hform
                · exact length_le_of_keyword hform
                · cases hform
              have hsuffix : cs.drop (n - 1) <:+ (c :: cs).drop n := by
                cases n with
                | zero => exact List.suffix_cons c cs
                | succ n => exact List.suffix_rfl
              obtain ⟨later, heq, hle⟩ := ih (some c) (offset + c.utf8Size) (n - 1)
              rw [Nat.add_assoc, ← Text.byteLength_cons] at hle
              apply exists_openers_cons_append heq hle
              rcases opener?_append offset hn ('\n' :: added) with hbrace | ⟨b, hb, hend, hnot⟩
              · exact .inl hbrace
              · exact .inr ⟨b, hb, hend, opener?_eq_none_of_not_mem hnot,
                  filterMap_opener?_eq_nil fun hmem => hnot (hsuffix.subset hmem)⟩

/-- The loop bodies of a text open first among those of the longer text. -/
theorem exists_loopOpeners_append (text added : List Char) :
    ∃ later, loopOpeners (text ++ '\n' :: added) = loopOpeners text ++ later ∧
      ∀ b ∈ later, Text.byteLength text ≤ b := by
  obtain ⟨later, heq, hle⟩ := exists_openers_append none 0 0 text added
  rw [Nat.zero_add] at hle
  refine ⟨later.eraseReps, ?_, fun b hb => hle b (mem_eraseReps.1 hb)⟩
  have hold : ∀ a ∈ (keywords text).filterMap opener?, a < Text.byteLength text := by
    intro a ha
    obtain ⟨k, hk, hopener⟩ := List.mem_filterMap.1 ha
    have hend := Text.start_add_of_mem hk
    have hbrace := (opener?_bounds hopener).2
    omega
  have hborder : ∀ a ∈ (keywords text).filterMap opener?, ∀ b ∈ later, a ≠ b := by
    intro a ha b hb hab
    have := hold a ha
    have := hle b hb
    omega
  rw [loopOpeners_eq, loopOpeners_eq, ← eraseReps_append hborder]
  exact congrArg List.eraseReps heq

section Later

variable {openers laterOpeners : List Nat} {offset : Nat} {c : Char}

/-- Openers of the longer text stand behind this place. -/
theorem head?_append_later (hlater : ∀ b ∈ laterOpeners, offset < b) :
    (openers ++ laterOpeners).head? = some offset ↔ openers.head? = some offset := by
  cases openers with
  | cons b openers => rfl
  | nil =>
      constructor
      · intro hfirst
        exact absurd (hlater offset (List.mem_of_mem_head? hfirst)) (Nat.lt_irrefl offset)
      · intro hfirst
        cases hfirst

/-- They stay when an opener is taken here. -/
theorem openersAfter_append (hlater : ∀ b ∈ laterOpeners, offset < b) :
    openersAfter (openers ++ laterOpeners) offset c =
      openersAfter openers offset c ++ laterOpeners := by
  unfold openersAfter
  simp only [head?_append_later hlater]
  split
  · rename_i hpassed
    cases openers with
    | nil => cases hpassed.2
    | cons b openers => rfl
  · rfl

end Later

/-- A mark that lies in a loop body of a text does so in the longer text: up to the mark the walk
over the text sees the same marks and the same openers. -/
theorem firstInside_append {marks openers laterMarks laterOpeners : List Nat}
    {braces : List Bool} {openLoops offset found : Nat} {cs : List Char} (added : List Char)
    (hlater : ∀ b ∈ laterOpeners, offset + Text.byteLength cs ≤ b)
    (h : firstInside marks openers braces openLoops offset cs = some found) :
    firstInside (marks ++ laterMarks) (openers ++ laterOpeners) braces openLoops offset
      (cs ++ added) = some found := by
  induction cs generalizing marks openers braces openLoops offset with
  | nil => simp at h
  | cons c cs ih =>
      cases marks with
      | nil => simp at h
      | cons mark marks =>
          rw [Text.byteLength_cons, ← Nat.add_assoc] at hlater
          have hbehind : ∀ b ∈ laterOpeners, offset < b := by
            intro b hb
            have hsize := c.utf8Size_pos
            have hle := hlater b hb
            omega
          have hisLoop : ((openers ++ laterOpeners).head? == some offset) =
              (openers.head? == some offset) := by
            rw [Bool.eq_iff_iff, beq_iff_eq, beq_iff_eq, head?_append_later hbehind]
          rw [firstInside_cons] at h
          rw [List.cons_append, List.cons_append, firstInside_cons, hisLoop,
            openersAfter_append hbehind]
          split
          · rename_i hinside
            rwa [if_pos hinside] at h
          · rename_i hinside
            rw [if_neg hinside] at h
            have hmarks : (if mark = offset then marks ++ laterMarks
                else mark :: (marks ++ laterMarks)) =
                  (if mark = offset then marks else mark :: marks) ++ laterMarks := by
              split <;> rfl
            rw [hmarks]
            exact ih hlater h

end LoopBody

/-- A print in a loop stays the first one that is found. -/
theorem DebugPrint.inLoop?_append {text : List Char} {found : Nat}
    (h : inLoop? text = some found) (added : List Char) :
    inLoop? (text ++ '\n' :: added) = some found := by
  obtain ⟨laterMarks, hmarks⟩ := starts_prefix text added
  obtain ⟨laterOpeners, hopeners, hlater⟩ := LoopBody.exists_loopOpeners_append text added
  unfold inLoop? at h ⊢
  rw [← hmarks, hopeners]
  exact LoopBody.firstInside_append _ (by simpa using hlater) h

end Neatness
