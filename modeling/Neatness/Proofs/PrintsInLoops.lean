import Neatness.Detection.DebugPrint
import Neatness.Proofs.LoopWalk

/-!
# The first print in a loop

* `marks_starts` says that the prints of a text are marks for the walk over loop bodies, and
  `inLoop?_eq_find?` that the walk finds the first of them that lies in a loop.
* `Alike` texts differ in closing braces that are semicolons in the other one.  They have the same
  prints and the same openers (`starts_congr`, `loopOpeners_congr`), since no form tells the two
  characters apart (`Respects`).  So a closing brace that closes nothing does not count
  (`inLoop?_stray`).
* `check_of_loop_bodies` is what the rule reports.
-/

namespace Neatness

namespace LoopBody

/-! ## Texts with other closing braces -/

/-- A character and what may stand in its place: a semicolon for a closing brace. -/
def AlikeChar (c d : Char) : Prop :=
  c = d ∨ c = closeBrace ∧ d = ';'

/-- The texts differ at most in closing braces that are semicolons in the second one. -/
def Alike : List Char → List Char → Prop :=
  List.Forall₂ AlikeChar

theorem Alike.refl (cs : List Char) : Alike cs cs :=
  List.forall₂_same.2 fun _ _ => .inl rfl

theorem alike_stray (front rest : List Char) :
    Alike (front ++ closeBrace :: rest) (front ++ ';' :: rest) :=
  List.rel_append (Alike.refl front) (.cons (.inr ⟨rfl, rfl⟩) (Alike.refl rest))

theorem AlikeChar.utf8Size_eq {c d : Char} (h : AlikeChar c d) : c.utf8Size = d.utf8Size := by
  rcases h with rfl | ⟨rfl, rfl⟩
  · rfl
  · decide

/-- Neither of the two is part of a word. -/
theorem AlikeChar.isWordChar_eq {c d : Char} (h : AlikeChar c d) :
    Text.isWordChar c = Text.isWordChar d := by
  rcases h with rfl | ⟨rfl, rfl⟩
  · rfl
  · decide +kernel

section Respects

variable {cs ds : List Char}

theorem Alike.byteLength_eq (h : Alike cs ds) : Text.byteLength cs = Text.byteLength ds := by
  induction h with
  | nil => rfl
  | cons hchar _ ih => rw [Text.byteLength_cons, Text.byteLength_cons, hchar.utf8Size_eq, ih]

theorem Alike.drop (h : Alike cs ds) (n : Nat) : Alike (cs.drop n) (ds.drop n) :=
  List.forall₂_drop n h

theorem Alike.take (h : Alike cs ds) (n : Nat) : Alike (cs.take n) (ds.take n) :=
  List.forall₂_take n h

/-- A form that stands at alike texts in the same way. -/
def Respects (form : Text.Form) : Prop :=
  ∀ cs ds, Alike cs ds → form cs = form ds

theorem respects_literal {word : List Char} (hbrace : closeBrace ∉ word) (hsemi : ';' ∉ word) :
    Respects (Text.literal word) := by
  intro cs ds h
  have hprefix : word.isPrefixOf cs = word.isPrefixOf ds := by
    induction word generalizing cs ds with
    | nil => simp
    | cons w word ih =>
        rw [List.mem_cons, not_or] at hbrace hsemi
        cases h with
        | nil => rfl
        | @cons c d cs ds hchar hrest =>
            rw [List.isPrefixOf, List.isPrefixOf, ih hbrace.2 hsemi.2 cs ds hrest]
            rcases hchar with rfl | ⟨rfl, rfl⟩
            · rfl
            · rw [beq_eq_false_iff_ne.2 (Ne.symm hbrace.1),
                beq_eq_false_iff_ne.2 (Ne.symm hsemi.1)]
  rw [Text.literal, Text.literal, hprefix]

theorem respects_run {p : Char → Bool} (hp : p closeBrace = p ';') : Respects (Text.run p) := by
  intro cs ds h
  have hlength : (cs.takeWhile p).length = (ds.takeWhile p).length := by
    induction h with
    | nil => rfl
    | @cons c d cs ds hchar hrest ih =>
        have hsame : p c = p d := by
          rcases hchar with rfl | ⟨rfl, rfl⟩
          · rfl
          · exact hp
        rw [List.takeWhile_cons, List.takeWhile_cons, hsame]
        split
        · rw [List.length_cons, List.length_cons, ih]
        · rfl
  rw [Text.run, Text.run, hlength]

theorem respects_wordEnd : Respects (Text.wordEnd Text.closesWord) := by
  intro cs ds h
  cases h with
  | nil => rfl
  | cons hchar hrest =>
      rw [Text.wordEnd, Text.wordEnd, Text.closesWord, Text.closesWord, hchar.isWordChar_eq]

theorem Respects.andThen {f g : Text.Form} (hf : Respects f) (hg : Respects g) :
    Respects (f.andThen g) := by
  intro cs ds h
  rw [Text.Form.andThen, Text.Form.andThen, hf cs ds h]
  cases f ds with
  | none => rfl
  | some n =>
      simp only
      rw [hg _ _ (h.drop n)]

theorem respects_findSome? {α : Type} {form : α → Text.Form} {l : List α}
    (h : ∀ a ∈ l, Respects (form a)) : Respects fun cs => l.findSome? fun a => form a cs := by
  intro cs ds halike
  induction l with
  | nil => rfl
  | cons a l ih =>
      have hlater := ih fun b hb => h b (List.mem_cons_of_mem a hb)
      simp only [List.findSome?_cons, h a List.mem_cons_self cs ds halike, hlater]

theorem respects_keyword : Respects keyword := by
  apply respects_findSome?
  intro form hform
  simp only [List.mem_cons, List.not_mem_nil, or_false] at hform
  rcases hform with rfl | rfl
  · exact (respects_literal (by decide) (by decide)).andThen respects_wordEnd
  · exact (respects_literal (by decide) (by decide)).andThen respects_wordEnd

/-- An occurrence at the same place of alike texts. -/
def SamePlace (a b : Text.Occurrence) : Prop :=
  a.start = b.start ∧ a.length = b.length ∧ Alike a.here b.here

theorem occurrencesFrom_congr {form : Text.Form} (hform : Respects form)
    {before other : Option Char} (hbefore : Text.opensWord before = Text.opensWord other)
    {offset skip : Nat} (h : Alike cs ds) :
    List.Forall₂ SamePlace (Text.occurrencesFrom Text.opensWord form before offset skip cs)
      (Text.occurrencesFrom Text.opensWord form other offset skip ds) := by
  induction h generalizing before other offset skip with
  | nil => exact .nil
  | @cons c d cs ds hchar hrest ih =>
      have hnext : Text.opensWord (some c) = Text.opensWord (some d) := by
        rw [Text.opensWord, Text.opensWord, hchar.isWordChar_eq]
      cases skip with
      | succ skip =>
          rw [Text.occurrencesFrom, Text.occurrencesFrom, hchar.utf8Size_eq]
          exact ih hnext
      | zero =>
          rw [Text.occurrencesFrom, Text.occurrencesFrom, hchar.utf8Size_eq, hbefore,
            hform _ _ (.cons hchar hrest)]
          cases (if Text.opensWord other then form (d :: ds) else none) with
          | none => exact ih hnext
          | some n => exact .cons ⟨rfl, rfl, .cons hchar hrest⟩ (ih hnext)

theorem braceWithin_congr (h : Alike cs ds) (window offset : Nat) :
    braceWithin window offset cs = braceWithin window offset ds := by
  induction h generalizing window offset with
  | nil => rfl
  | @cons c d cs ds hchar hrest ih =>
      have hopen : c = openBrace ↔ d = openBrace := by
        rcases hchar with rfl | ⟨rfl, rfl⟩
        · exact Iff.rfl
        · decide
      rw [braceWithin, braceWithin, hchar.utf8Size_eq, ih]
      simp only [hopen]

theorem opener?_congr {a b : Text.Occurrence} (h : SamePlace a b) : opener? a = opener? b := by
  obtain ⟨hstart, hlength, halike⟩ := h
  have hstop : a.stop = b.stop := by
    rw [Text.Occurrence.stop, Text.Occurrence.stop, hstart, hlength,
      (halike.take b.length).byteLength_eq]
  rw [opener?, opener?, hstop, Text.Occurrence.rest, Text.Occurrence.rest, hlength]
  exact braceWithin_congr (halike.drop b.length) _ _

theorem filterMap_opener?_congr {l m : List Text.Occurrence} (h : List.Forall₂ SamePlace l m) :
    l.filterMap opener? = m.filterMap opener? := by
  induction h with
  | nil => rfl
  | cons hsame _ ih => rw [List.filterMap_cons, List.filterMap_cons, opener?_congr hsame, ih]

/-- Alike texts have the same openers. -/
theorem loopOpeners_congr (h : Alike cs ds) : loopOpeners cs = loopOpeners ds := by
  have hkeywords : List.Forall₂ SamePlace (keywords cs) (keywords ds) :=
    occurrencesFrom_congr respects_keyword rfl h
  rw [loopOpeners_eq, loopOpeners_eq, filterMap_opener?_congr hkeywords]

end Respects

/-- A closing brace that closes no block is no end of a loop body, nor is a semicolon. -/
theorem inLoop_stray {front rest before behind : List Char} {c : Char}
    (hstray : openBlocks front = [])
    (hsplit : front ++ closeBrace :: rest = before ++ c :: behind) (hc : c ≠ closeBrace) :
    InLoop (front ++ closeBrace :: rest) (Text.byteLength before) ↔
      InLoop (front ++ ';' :: rest) (Text.byteLength before) := by
  rw [inLoop_iff hsplit hc, loopOpeners_congr (alike_stray front rest)]
  rcases List.append_eq_append_iff.1 hsplit with ⟨more, rfl, hmore⟩ | ⟨more, rfl, hmore⟩
  · cases more with
    | nil => exact absurd (List.cons.inj hmore).1.symm hc
    | cons d more =>
        obtain ⟨rfl, rfl⟩ := List.cons.inj hmore
        -- The same blocks are open behind the brace and behind the semicolon.
        have hblocks : openBlocks (front ++ closeBrace :: more) =
            openBlocks (front ++ ';' :: more) := by
          rw [openBlocks_append, openBlocks_append, hstray]
          rfl
        have hlength : Text.byteLength (front ++ closeBrace :: more) =
            Text.byteLength (front ++ ';' :: more) := (alike_stray front more).byteLength_eq
        rw [hlength, hblocks]
        exact (inLoop_iff (by rw [List.append_assoc]; rfl) hc).symm
  · cases more with
    | nil => exact absurd (List.cons.inj hmore).1 hc
    | cons d more =>
        obtain ⟨rfl, rfl⟩ := List.cons.inj hmore
        exact (inLoop_iff (by rw [List.append_assoc]; rfl) hc).symm

end LoopBody

namespace DebugPrint

/-! ## Prints as marks -/

/-- The words that prints start with. -/
def firstWords : List (List Char) :=
  callWords ++ ["puts".toList, "std::cout".toList, "cout".toList]

theorem exists_word_of_form {cs : List Char} {n : Nat} (h : form cs = some n) :
    ∃ word ∈ firstWords, word <+: cs := by
  unfold form Text.Form.oneOf at h
  obtain ⟨f, hf, hstands⟩ := List.exists_of_findSome?_eq_some h
  simp only [List.mem_cons, List.not_mem_nil, or_false] at hf
  rcases hf with rfl | rfl | rfl | rfl
  · obtain ⟨word, hword, hcall⟩ := List.exists_of_findSome?_eq_some hstands
    exact ⟨word, List.mem_append_left _ hword, Text.prefix_of_literal_andThen hcall⟩
  · exact ⟨_, by simp [firstWords], Text.prefix_of_literal_andThen hstands⟩
  · exact ⟨_, by simp [firstWords], Text.prefix_of_literal_andThen hstands⟩
  · exact ⟨_, by simp [firstWords], Text.prefix_of_literal_andThen hstands⟩

/-- No first word is empty, and none has a character that closes a block or ends a statement. -/
theorem plain_firstWords : ∀ word ∈ firstWords,
    word ≠ [] ∧ LoopBody.closeBrace ∉ word ∧ ';' ∉ word := by
  decide +kernel

/-- No print starts with a closing brace. -/
theorem form_closeBrace (cs : List Char) : form (LoopBody.closeBrace :: cs) = none := by
  cases hform : form (LoopBody.closeBrace :: cs) with
  | none => rfl
  | some n =>
      obtain ⟨word, hword, hleads⟩ := exists_word_of_form hform
      obtain ⟨hne, hplain, -⟩ := plain_firstWords word hword
      obtain ⟨c, word, rfl⟩ := List.exists_cons_of_ne_nil hne
      rw [List.cons_prefix_cons] at hleads
      exact absurd (hleads.1 ▸ List.mem_cons_self) hplain

/-- A print stands at a character of the text that is no closing brace. -/
theorem exists_place_of_mem_starts {text : List Char} {p : Nat} (h : p ∈ starts text) :
    ∃ front c rest, text = front ++ c :: rest ∧ p = Text.byteLength front ∧
      c ≠ LoopBody.closeBrace := by
  obtain ⟨o, ho, rfl⟩ := List.mem_map.1 h
  obtain ⟨front, htext, hstart⟩ := Text.exists_front_of_mem ho
  obtain ⟨c, rest, hhere, hform⟩ := Text.form_of_mem ho
  refine ⟨front, c, rest, hhere ▸ htext, hstart, ?_⟩
  rintro rfl
  rw [form_closeBrace] at hform
  cases hform

theorem marks_starts (text : List Char) : LoopBody.Walk.Marks text (starts text) where
  ascend := List.pairwise_map.2 Text.pairwise_start
  places p hp := by
    obtain ⟨front, c, rest, htext, hstart, -⟩ := exists_place_of_mem_starts hp
    exact ⟨front, c, rest, htext, hstart⟩

theorem inLoop?_eq_search (text : List Char) :
    inLoop? text = (LoopBody.Walk.start (starts text) text).search text := rfl

/-- The walk finds the first print that lies in a loop. -/
theorem inLoop?_eq_find? (text : List Char) :
    inLoop? text = (starts text).find? fun p => decide (LoopBody.InLoop text p) := by
  rw [inLoop?_eq_search]
  apply LoopBody.Walk.search_start (marks_starts text)
  intro front rest htext hmark
  obtain ⟨before, c, behind, hsplit, hstart, hc⟩ := exists_place_of_mem_starts hmark
  have hsame := Text.append_inj_of_byteLength (htext.symm.trans hsplit) hstart
  exact hc (List.cons.inj hsame.2).1.symm

/-- The first print of a text that meets a condition. -/
def IsFirst (text : List Char) (P : Nat → Prop) (p : Nat) : Prop :=
  p ∈ starts text ∧ P p ∧ ∀ q ∈ starts text, P q → p ≤ q

theorem find?_eq_some_iff_least {offsets : List Nat} (hascend : offsets.Pairwise (· < ·))
    {test : Nat → Bool} {p : Nat} :
    offsets.find? test = some p ↔
      p ∈ offsets ∧ test p = true ∧ ∀ q ∈ offsets, test q = true → p ≤ q := by
  induction offsets with
  | nil => simp
  | cons a offsets ih =>
      obtain ⟨hfirst, hlater⟩ := List.pairwise_cons.1 hascend
      by_cases ha : test a = true
      · rw [List.find?_cons_of_pos ha, Option.some.injEq]
        constructor
        · rintro rfl
          refine ⟨List.mem_cons_self, ha, fun q hq _ => ?_⟩
          rcases List.mem_cons.1 hq with rfl | hq
          · exact Nat.le_refl _
          · exact Nat.le_of_lt (hfirst q hq)
        · rintro ⟨hp, -, hleast⟩
          have hle := hleast a List.mem_cons_self ha
          rcases List.mem_cons.1 hp with rfl | hp
          · rfl
          · have hlt := hfirst p hp
            omega
      · rw [List.find?_cons_of_neg ha, ih hlater]
        constructor
        · rintro ⟨hp, htest, hleast⟩
          refine ⟨List.mem_cons_of_mem a hp, htest, fun q hq hq' => ?_⟩
          rcases List.mem_cons.1 hq with rfl | hq
          · exact absurd hq' ha
          · exact hleast q hq hq'
        · rintro ⟨hp, htest, hleast⟩
          rcases List.mem_cons.1 hp with rfl | hp
          · exact absurd htest ha
          · exact ⟨hp, htest, fun q hq => hleast q (List.mem_cons_of_mem a hq)⟩

theorem head?_starts_eq_some_iff {text : List Char} {p : Nat} :
    (starts text).head? = some p ↔ IsFirst text (fun _ => True) p := by
  have hhead : (starts text).head? = (starts text).find? fun _ => true := by
    cases starts text <;> rfl
  rw [hhead, find?_eq_some_iff_least (marks_starts text).ascend]
  simp only [IsFirst]

theorem inLoop?_eq_some_iff {text : List Char} {p : Nat} :
    inLoop? text = some p ↔ IsFirst text (LoopBody.InLoop text) p := by
  rw [inLoop?_eq_find?, find?_eq_some_iff_least (marks_starts text).ascend]
  simp only [decide_eq_true_eq, IsFirst]

theorem inLoop?_eq_none_iff {text : List Char} :
    inLoop? text = none ↔ ∀ p ∈ starts text, ¬LoopBody.InLoop text p := by
  rw [inLoop?_eq_find?, List.find?_eq_none]
  simp only [decide_eq_true_eq]

/-! ## What is reported -/

/-- A print in a loop is reported if such prints are; otherwise the first print, if plain prints
are. -/
theorem check_eq_some_iff {reportPlain reportLoop : Bool} {text : List Char} {d : Detection} :
    check reportPlain reportLoop text = some d ↔
      (reportLoop = true ∧ ∃ p, inLoop? text = some p ∧
        d = ⟨.debugPrintInLoop, p, loopMessage⟩) ∨
      ((reportLoop = true → inLoop? text = none) ∧ reportPlain = true ∧
        ∃ p, (starts text).head? = some p ∧ d = ⟨.debugPrint, p, message⟩) := by
  have hfirst : ∀ p, inLoop? text = some p → starts text ≠ [] := by
    intro p hp
    exact List.ne_nil_of_mem (inLoop?_eq_some_iff.1 hp).1
  unfold check
  cases hstarts : starts text with
  | nil =>
      cases hin : inLoop? text with
      | none => simp
      | some p => exact absurd hstarts (hfirst p hin)
  | cons offset later =>
      cases reportLoop <;> cases reportPlain <;> cases inLoop? text <;> simp [eq_comm]

/-! ## A closing brace that closes nothing -/

theorem respects_form : LoopBody.Respects form := by
  have hword : ∀ word ∈ firstWords, LoopBody.Respects (Text.literal word) := by
    intro word hmem
    obtain ⟨-, hbrace, hsemi⟩ := plain_firstWords word hmem
    exact LoopBody.respects_literal hbrace hsemi
  have hblanks : LoopBody.Respects (Text.run Text.isBlank) :=
    LoopBody.respects_run (by decide +kernel)
  apply LoopBody.respects_findSome?
  intro f hf
  simp only [List.mem_cons, List.not_mem_nil, or_false] at hf
  rcases hf with rfl | rfl | rfl | rfl
  · apply LoopBody.respects_findSome?
    intro word hmem
    exact (hword word (List.mem_append_left _ hmem)).andThen
      (hblanks.andThen (LoopBody.respects_literal (by decide) (by decide)))
  · exact (hword _ (by simp [firstWords])).andThen LoopBody.respects_wordEnd
  · exact (hword _ (by simp [firstWords])).andThen LoopBody.respects_wordEnd
  · exact (hword _ (by simp [firstWords])).andThen
      (hblanks.andThen (LoopBody.respects_literal (by decide) (by decide)))

/-- Alike texts have the same prints. -/
theorem starts_congr {cs ds : List Char} (h : LoopBody.Alike cs ds) : starts cs = starts ds := by
  have hplaces : List.Forall₂ LoopBody.SamePlace (Text.occurrences Text.opensWord form cs)
      (Text.occurrences Text.opensWord form ds) :=
    LoopBody.occurrencesFrom_congr respects_form rfl h
  unfold starts
  generalize Text.occurrences Text.opensWord form cs = l at hplaces
  generalize Text.occurrences Text.opensWord form ds = m at hplaces
  induction hplaces with
  | nil => rfl
  | cons hsame _ ih => rw [List.map_cons, List.map_cons, hsame.1, ih]

theorem inLoop?_stray {front : List Char} (hstray : LoopBody.openBlocks front = [])
    (rest : List Char) :
    inLoop? (front ++ LoopBody.closeBrace :: rest) = inLoop? (front ++ ';' :: rest) := by
  rw [inLoop?_eq_find?, inLoop?_eq_find?, ← starts_congr (LoopBody.alike_stray front rest)]
  apply LoopBody.find?_congr
  intro p hp
  obtain ⟨before, c, behind, hsplit, rfl, hc⟩ := exists_place_of_mem_starts hp
  rw [decide_eq_decide]
  exact LoopBody.inLoop_stray hstray hsplit hc

theorem check_stray {front : List Char} (hstray : LoopBody.openBlocks front = [])
    (rest : List Char) (reportPlain reportLoop : Bool) :
    check reportPlain reportLoop (front ++ LoopBody.closeBrace :: rest) =
      check reportPlain reportLoop (front ++ ';' :: rest) := by
  unfold check
  rw [inLoop?_stray hstray, starts_congr (LoopBody.alike_stray front rest)]

/-! ## The rule -/

/-- One walk over the text finds the first print that lies in a loop, if there is one, and the rule
reports it if it is asked for such prints; otherwise it reports the first print, if it is asked for
plain ones.  A closing brace that closes no block counts no more than a semicolon.  And as long as
the walk has not stopped, it goes on with what it carries along, where a loop body that ends is
always counted. -/
theorem check_of_loop_bodies (text : List Char) :
    (∀ p, inLoop? text = some p ↔ IsFirst text (LoopBody.InLoop text) p) ∧
    (inLoop? text = none ↔ ∀ p ∈ starts text, ¬LoopBody.InLoop text p) ∧
    (∀ reportPlain reportLoop d, check reportPlain reportLoop text = some d ↔
      (reportLoop = true ∧ ∃ p, IsFirst text (LoopBody.InLoop text) p ∧
        d = ⟨.debugPrintInLoop, p, loopMessage⟩) ∨
      ((reportLoop = true → ∀ p ∈ starts text, ¬LoopBody.InLoop text p) ∧ reportPlain = true ∧
        ∃ p, IsFirst text (fun _ => True) p ∧ d = ⟨.debugPrint, p, message⟩)) ∧
    (∀ front rest, text = front ++ LoopBody.closeBrace :: rest → LoopBody.openBlocks front = [] →
      inLoop? text = inLoop? (front ++ ';' :: rest) ∧
      ∀ reportPlain reportLoop, check reportPlain reportLoop text =
        check reportPlain reportLoop (front ++ ';' :: rest)) ∧
    ∀ front rest, text = front ++ rest → (∀ p, inLoop? text = some p → Text.byteLength front ≤ p) →
      inLoop? text = ((LoopBody.Walk.start (starts text) text).after front).search rest ∧
      (((LoopBody.Walk.start (starts text) text).after front).braces.head? = some true →
        0 < ((LoopBody.Walk.start (starts text) text).after front).openLoops) := by
  refine ⟨fun p => inLoop?_eq_some_iff, inLoop?_eq_none_iff, fun reportPlain reportLoop d => ?_,
    fun front rest htext hstray => ?_, fun front rest htext hahead => ?_⟩
  · rw [check_eq_some_iff, inLoop?_eq_none_iff]
    simp only [inLoop?_eq_some_iff, head?_starts_eq_some_iff]
  · subst htext
    exact ⟨inLoop?_stray hstray rest, check_stray hstray rest⟩
  · refine ⟨?_, (LoopBody.Walk.follows_after (marks_starts text) htext).openLoops_pos⟩
    have hpassed : ∀ p, (LoopBody.Walk.start (starts text) text).search (front ++ rest) = some p →
        (LoopBody.Walk.start (starts text) text).offset + Text.byteLength front ≤ p := by
      intro p hp
      rw [← htext] at hp
      have hle := hahead p hp
      show 0 + Text.byteLength front ≤ p
      omega
    rw [← LoopBody.Walk.search_after hpassed, ← htext, inLoop?_eq_search]

/-- A closing brace that closes nothing, and a loop in a loop, with prints behind each of them. -/
def nestedLoops (stray : Char) : List Char :=
  stray :: "while (a) { for (b) { c } print(d) } print(e)".toList

/-- The walk over that text, when both loops are open. -/
def insideBoth : LoopBody.Walk :=
  (LoopBody.Walk.start (starts (nestedLoops LoopBody.closeBrace))
    (nestedLoops LoopBody.closeBrace)).after ((nestedLoops LoopBody.closeBrace).take 24)

theorem check_of_loop_bodies_nestedLoops :
    inLoop? (nestedLoops LoopBody.closeBrace) = some 27 ∧
    check true true (nestedLoops LoopBody.closeBrace) =
      some ⟨.debugPrintInLoop, 27, loopMessage⟩ ∧
    inLoop? (nestedLoops LoopBody.closeBrace) = inLoop? (nestedLoops ';') ∧
    insideBoth.braces = [true, true] ∧ 0 < insideBoth.openLoops := by
  obtain ⟨hfirst, -, hcheck, hstray, hwalk⟩ :=
    check_of_loop_bodies (nestedLoops LoopBody.closeBrace)
  have hinner : IsFirst (nestedLoops LoopBody.closeBrace)
      (LoopBody.InLoop (nestedLoops LoopBody.closeBrace)) 27 := by
    refine ⟨?_, ?_, ?_⟩ <;> decide +kernel
  have hinLoop := (hfirst 27).2 hinner
  have hbraces : insideBoth.braces = [true, true] := by decide +kernel
  refine ⟨hinLoop, (hcheck true true _).2 (.inl ⟨rfl, 27, hinner, rfl⟩),
    (hstray [] _ rfl rfl).1, hbraces, ?_⟩
  refine (hwalk _ ((nestedLoops LoopBody.closeBrace).drop 24) (List.take_append_drop 24 _).symm
    fun p hp => ?_).2 ?_
  · obtain rfl := Option.some.inj (hinLoop.symm.trans hp)
    decide +kernel
  · show insideBoth.braces.head? = some true
    rw [hbraces]
    rfl

end DebugPrint
end Neatness
