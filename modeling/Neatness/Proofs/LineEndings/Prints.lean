import Neatness.Detection.DebugPrint
import Neatness.Proofs.LineEndings.Probes
import Neatness.Proofs.LoopBody

/-!
# Prints under other line endings

Prints stand where they stood when every newline gets a carriage return, and so do loop keywords.  A
loop keyword takes the first brace within a number of bytes, though, and a carriage return is a byte:
`LoopBody.HeadersFit` says that no keyword loses its brace, and `LoopBody.countedOpeners` are the
braces that are left.

* `firstInside_withReturns` follows the walk over both texts.
* `inLoop?_withReturns` finds the same print if no keyword loses its brace.  Without this condition a
  print can leave a loop body but not get into one.
-/

namespace Neatness

namespace LoopBody

/-- What stands between a loop keyword and the first brace behind it. -/
def headerOf (k : Text.Occurrence) : List Char :=
  k.rest.takeWhile (· != openBrace)

/-- No loop keyword loses its brace to the carriage returns of its header. -/
def HeadersFit (text : List Char) : Prop :=
  ∀ k ∈ keywords text, openBrace ∈ k.rest → Text.byteLength (headerOf k) < headerWindow →
    Text.byteLength (Text.withReturns (headerOf k)) < headerWindow

instance (text : List Char) : Decidable (HeadersFit text) :=
  inferInstanceAs (Decidable (∀ k ∈ keywords text, _))

theorem keyword_newline (cs : List Char) : keyword ('\n' :: cs) = none := by
  unfold keyword Text.Form.oneOf
  simp only [List.findSome?_cons, List.findSome?_nil]
  rw [Text.literal_andThen_newline (by decide) (by decide),
    Text.literal_andThen_newline (by decide) (by decide)]

theorem keyword_keepsTo : Text.Form.KeepsTo keyword := by
  apply Text.keepsTo_oneOf
  intro form hform
  simp only [List.mem_cons, List.not_mem_nil, or_false] at hform
  rcases hform with rfl | rfl
  · exact (Text.keepsTo_literal (by decide)).andThen Text.keepsTo_wordEnd
  · exact (Text.keepsTo_literal (by decide)).andThen Text.keepsTo_wordEnd

theorem keywords_withReturns (text : List Char) :
    keywords (Text.withReturns text) = (keywords text).map (Text.Occurrence.withReturns text) :=
  Text.occurrences_withReturns keyword_newline keyword_keepsTo text

/-- The brace of a keyword, if it is still within the window with carriage returns. -/
def countedOpener? (k : Text.Occurrence) : Option Nat :=
  (opener? k).filter fun _ => Text.byteLength (Text.withReturns (headerOf k)) < headerWindow

theorem headerOf_eq {k : Text.Occurrence} {header body : List Char}
    (hrest : k.rest = header ++ openBrace :: body) (hnot : openBrace ∉ header) :
    headerOf k = header := by
  have hother : ∀ c ∈ header, (c != openBrace) = true := by
    intro c hc
    simpa using fun heq : c = openBrace => hnot (heq ▸ hc)
  rw [headerOf, hrest, List.takeWhile_append_of_pos hother]
  simp

/-- A keyword takes the same brace as long as the brace is within the window. -/
theorem opener?_withReturns {text : List Char} {k : Text.Occurrence} (hk : k ∈ keywords text) :
    opener? (k.withReturns text) = (countedOpener? k).map (Text.shift text) := by
  obtain ⟨front, htext, hstart⟩ := Text.exists_front_of_mem hk
  have hrest : (k.withReturns text).rest = Text.withReturns k.rest :=
    Text.drop_withReturns k.length k.here
  have hplace : ∀ header body, k.rest = header ++ body →
      Text.shift text (k.stop + Text.byteLength header) =
        (k.withReturns text).stop + Text.byteLength (Text.withReturns header) := by
    intro header body hheader
    have hsplit : text = front ++ k.here.take k.length ++ header ++ body := by
      rw [List.append_assoc, ← hheader, List.append_assoc, Text.Occurrence.rest,
        List.take_append_drop, htext]
    have hstop : k.stop + Text.byteLength header =
        Text.byteLength (front ++ k.here.take k.length ++ header) := by
      rw [Text.Occurrence.stop, hstart, Text.byteLength_append, Text.byteLength_append]
    have hshift : Text.shift text k.start = Text.byteLength (Text.withReturns front) := by
      rw [hstart, htext, Text.shift_byteLength]
    rw [hstop, hsplit, Text.shift_byteLength, ← hsplit, Text.withReturns_append,
      Text.withReturns_append, Text.byteLength_append, Text.byteLength_append,
      Text.Occurrence.stop, Text.Occurrence.withReturns, Text.take_withReturns, hshift]
  -- Both sides say that the text behind the keyword splits at its first brace; the header is short
  -- enough with carriage returns, and then it is so without.
  apply Option.ext
  intro b
  simp only [Option.map_eq_some_iff, countedOpener?, Option.filter_eq_some_iff, decide_eq_true_eq,
    opener?, braceWithin_eq_some_iff, hrest]
  constructor
  · rintro ⟨header, body, hsplit, hnot, hlt, rfl⟩
    obtain ⟨header, body, hbody, rfl⟩ :=
      Text.exists_of_withReturns_eq_append hsplit (by decide) (by decide)
    rw [Text.mem_withReturns (by decide)] at hnot
    have hle := Text.byteLength_le_withReturns header
    refine ⟨_, ⟨⟨header, body, hbody, hnot, by omega, rfl⟩, ?_⟩, hplace _ _ hbody⟩
    rwa [headerOf_eq hbody hnot]
  · rintro ⟨b, ⟨⟨header, body, hbody, hnot, -, rfl⟩, hfits⟩, rfl⟩
    rw [headerOf_eq hbody hnot] at hfits
    refine ⟨Text.withReturns header, Text.withReturns body, ?_, ?_, hfits, hplace _ _ hbody⟩
    · rw [hbody, Text.withReturns_append, Text.withReturns_cons (by decide)]
    · rwa [Text.mem_withReturns (by decide)]

/-- The braces of loop bodies that are still within the window with carriage returns. -/
def countedOpeners (text : List Char) : List Nat :=
  ((keywords text).filterMap countedOpener?).eraseReps

theorem loopOpeners_withReturns (text : List Char) :
    loopOpeners (Text.withReturns text) = (countedOpeners text).map (Text.shift text) := by
  rw [loopOpeners_eq, countedOpeners, ← eraseReps_map fun _ _ => Text.shift_injective text,
    keywords_withReturns, List.filterMap_map, List.map_filterMap]
  congr 1
  exact List.filterMap_congr fun k hk => opener?_withReturns hk

theorem countedOpeners_of_headersFit {text : List Char} (h : HeadersFit text) :
    countedOpeners text = loopOpeners text := by
  rw [countedOpeners, loopOpeners_eq]
  congr 1
  apply List.filterMap_congr
  intro k hk
  cases hopener : opener? k with
  | none => simp [countedOpener?, hopener]
  | some b =>
      obtain ⟨header, body, hrest, hnot, hlt, -⟩ := braceWithin_eq_some_iff.1 hopener
      have hfits := h k hk (by simp [hrest])
      rw [headerOf_eq hrest hnot] at hfits
      simp [countedOpener?, hopener, headerOf_eq hrest hnot, hfits hlt]

theorem countedOpeners_subset (text : List Char) : countedOpeners text ⊆ loopOpeners text := by
  intro b hb
  obtain ⟨k, hk, hcounted⟩ := List.mem_filterMap.1 (mem_eraseReps.1 hb)
  exact mem_eraseReps.2 (List.mem_filterMap.2 ⟨k, hk, (Option.filter_eq_some_iff.1 hcounted).1⟩)

theorem countedOpeners_pairwise (text : List Char) :
    (countedOpeners text).Pairwise (· < ·) := by
  have hsublist : ∀ ks : List Text.Occurrence,
      List.Sublist (ks.filterMap countedOpener?) (ks.filterMap opener?) := by
    intro ks
    induction ks with
    | nil => exact .slnil
    | cons k ks ih =>
        cases hopener : opener? k with
        | none =>
            rw [List.filterMap_cons_none (by simp [countedOpener?, hopener]),
              List.filterMap_cons_none hopener]
            exact ih
        | some b =>
            rw [List.filterMap_cons_some hopener]
            by_cases hfits : Text.byteLength (Text.withReturns (headerOf k)) < headerWindow
            · have hcounted : countedOpener? k = some b := by simp [countedOpener?, hopener, hfits]
              rw [List.filterMap_cons_some hcounted]
              exact ih.cons_cons b
            · have hcounted : countedOpener? k = none := by simp [countedOpener?, hopener, hfits]
              rw [List.filterMap_cons_none hcounted]
              exact ih.cons b
  exact eraseReps_pairwise ((openers_pairwise_keywords text).sublist (hsublist _))

/-- Behind a carriage return the walk goes on at the newline, where no mark stands. -/
theorem firstInside_newline {marks openers : List Nat} {braces : List Bool}
    {openLoops offset : Nat} (h : offset ∉ marks) (cs : List Char) :
    firstInside marks openers braces openLoops offset ('\n' :: cs) =
      firstInside marks openers braces openLoops (offset + 1) cs := by
  cases marks with
  | nil => simp
  | cons mark later =>
      have hmark : mark ≠ offset := fun heq => h (heq ▸ List.mem_cons_self)
      rw [firstInside_cons_of_ne (by decide) (by decide), if_neg fun hinside => hmark hinside.1,
        if_neg hmark]
      rfl

section Moved

variable {f : Nat → Nat} (hf : ∀ {a b}, f a = f b → a = b)

include hf in
/-- A brace opens a loop body where it did, if all places are moved alike. -/
theorem head?_map_eq_some_iff (openers : List Nat) (offset : Nat) :
    (openers.map f).head? = some (f offset) ↔ openers.head? = some offset := by
  cases openers with
  | nil => simp
  | cons b openers =>
      simp only [List.map_cons, List.head?_cons, Option.some.injEq]
      exact ⟨hf, congrArg f⟩

include hf in
/-- One step of the walk, if all places are moved alike. -/
theorem firstInside_cons_map (mark : Nat) (later openers : List Nat) (braces : List Bool)
    (openLoops offset : Nat) (c : Char) (cs : List Char) :
    firstInside (f mark :: later.map f) (openers.map f) braces openLoops (f offset) (c :: cs) =
      if mark = offset ∧ 0 < openLoops then some (f offset)
      else firstInside ((if mark = offset then later else mark :: later).map f)
        ((openersAfter openers offset c).map f)
        (bracesAfter (openers.head? == some offset) c braces)
        (openLoopsAfter (openers.head? == some offset) c braces openLoops)
        (f offset + c.utf8Size) cs := by
  have hmark : f mark = f offset ↔ mark = offset := ⟨hf, congrArg f⟩
  have hhead := head?_map_eq_some_iff hf openers offset
  have hisLoop : ((openers.map f).head? == some (f offset)) = (openers.head? == some offset) := by
    rw [Bool.eq_iff_iff, beq_iff_eq, beq_iff_eq, hhead]
  have hopeners : openersAfter (openers.map f) (f offset) c =
      (openersAfter openers offset c).map f := by
    unfold openersAfter
    simp only [hhead]
    split
    · rw [List.map_tail]
    · rfl
  have hmarks : (if mark = offset then later.map f else f mark :: later.map f) =
      (if mark = offset then later else mark :: later).map f := by
    split <;> rfl
  rw [firstInside_cons, hisLoop, hopeners]
  simp only [hmark, hmarks]

end Moved

/-- The walk over the text with carriage returns finds the same mark. -/
theorem firstInside_withReturns {text front cs : List Char} (htext : text = front ++ cs)
    (marks openers : List Nat) (braces : List Bool) (openLoops : Nat) :
    firstInside (marks.map (Text.shift text)) (openers.map (Text.shift text)) braces openLoops
        (Text.shift text (Text.byteLength front)) (Text.withReturns cs) =
      (firstInside marks openers braces openLoops (Text.byteLength front) cs).map
        (Text.shift text) := by
  induction cs generalizing front marks openers braces openLoops with
  | nil => simp
  | cons c cs ih =>
      cases marks with
      | nil => simp
      | cons mark later =>
          have hsplit : text = front ++ [c] ++ cs := by rw [htext, List.append_assoc]; rfl
          have hlength := Text.byteLength_concat front c
          have hnext : Text.shift text (Text.byteLength front + c.utf8Size) =
              Text.shift text (Text.byteLength front) + Text.byteLength (Text.withReturns [c]) := by
            rw [← hlength, hsplit, Text.shift_byteLength, List.append_assoc, Text.shift_byteLength,
              Text.withReturns_append, Text.byteLength_append]
          have hgo := ih hsplit
          rw [hlength, hnext] at hgo
          rw [List.map_cons]
          by_cases hc : c = '\n'
          · subst hc
            rw [Text.withReturns_newline, firstInside_cons_map (Text.shift_injective text),
              firstInside_cons]
            split
            · rfl
            · rw [firstInside_newline]
              · exact hgo _ _ _ _
              · -- No place goes between the two characters of a line end.
                intro hmem
                obtain ⟨a, -, ha⟩ := List.mem_map.1 hmem
                have hreturn : '\r'.utf8Size = 1 := rfl
                have hbreak : '\n'.utf8Size = 1 := rfl
                have htwo : Text.byteLength (Text.withReturns ['\n']) = 2 := rfl
                rcases Nat.lt_or_ge (Text.byteLength front) a with hlt | hle
                · have hbehind : Text.byteLength front + '\n'.utf8Size ≤ a := by omega
                  have := Text.shift_le text hbehind
                  omega
                · have := Text.shift_le text hle
                  omega
          · rw [Text.withReturns_cons hc, firstInside_cons_map (Text.shift_injective text),
              firstInside_cons]
            split
            · rfl
            · rw [Text.withReturns_cons hc, Text.withReturns_nil, Text.byteLength_cons,
                Text.byteLength_nil, Nat.add_zero] at hgo
              exact hgo _ _ _ _

end LoopBody

namespace DebugPrint

/-- The words of calls stand on one line. -/
theorem onOneLine_of_mem_callWords : ∀ word ∈ callWords, Text.OnOneLine word ∧ word ≠ [] := by
  decide +kernel

theorem onOneLine_bareWords :
    Text.OnOneLine "puts".toList ∧ Text.OnOneLine "std::cout".toList ∧
      Text.OnOneLine "cout".toList := by
  decide +kernel

theorem form_newline (cs : List Char) : form ('\n' :: cs) = none := by
  obtain ⟨hputs, hstream, hcout⟩ := onOneLine_bareWords
  have hcalls : callOf callWords ('\n' :: cs) = none := by
    unfold callOf
    rw [List.findSome?_eq_none_iff]
    intro word hword
    obtain ⟨hline, hne⟩ := onOneLine_of_mem_callWords word hword
    exact Text.literal_andThen_newline hline hne _ cs
  unfold form Text.Form.oneOf
  simp only [List.findSome?_cons, List.findSome?_nil, hcalls]
  unfold bareWord shiftOut
  rw [Text.literal_andThen_newline hputs (by decide), Text.literal_andThen_newline hstream (by decide),
    Text.literal_andThen_newline hcout (by decide)]

theorem form_keepsTo : Text.Form.KeepsTo form := by
  obtain ⟨hputs, hstream, hcout⟩ := onOneLine_bareWords
  have hblanks : (Text.run Text.isBlank).KeepsTo := Text.keepsTo_run (by decide)
  apply Text.keepsTo_oneOf
  intro form hform
  simp only [List.mem_cons, List.not_mem_nil, or_false] at hform
  rcases hform with rfl | rfl | rfl | rfl
  · apply Text.keepsTo_findSome?
    intro word hword
    exact (Text.keepsTo_literal (onOneLine_of_mem_callWords word hword).1).andThen
      (hblanks.andThen (Text.keepsTo_literal (by decide)))
  · exact (Text.keepsTo_literal hputs).andThen Text.keepsTo_wordEnd
  · exact (Text.keepsTo_literal hstream).andThen Text.keepsTo_wordEnd
  · exact (Text.keepsTo_literal hcout).andThen
      (hblanks.andThen (Text.keepsTo_literal (by decide)))

theorem starts_withReturns (text : List Char) :
    starts (Text.withReturns text) = (starts text).map (Text.shift text) := by
  unfold starts
  rw [Text.occurrences_withReturns form_newline form_keepsTo, List.map_map, List.map_map]
  rfl

/-- Carriage returns take no print into a loop body, and none out of one if no keyword loses its
brace. -/
theorem inLoop?_withReturns {text : List Char}
    (h : LoopBody.HeadersFit text ∨ inLoop? text = none) :
    inLoop? (Text.withReturns text) = (inLoop? text).map (Text.shift text) := by
  have hwalk := LoopBody.firstInside_withReturns (List.nil_append text).symm (starts text)
    (LoopBody.countedOpeners text) [] 0
  rw [Text.byteLength_nil, Text.shift_zero] at hwalk
  have hreturns : inLoop? (Text.withReturns text) = (LoopBody.firstInside (starts text)
      (LoopBody.countedOpeners text) [] 0 0 text).map (Text.shift text) := by
    unfold inLoop?
    rw [starts_withReturns, LoopBody.loopOpeners_withReturns]
    exact hwalk
  rw [hreturns]
  rcases h with hfits | hnone
  · rw [LoopBody.countedOpeners_of_headersFit hfits]
    rfl
  · -- The braces that are left are among the old ones, so that no print gets into a loop body.
    cases hfound : LoopBody.firstInside (starts text) (LoopBody.countedOpeners text) [] 0 0 text with
    | none => rw [hnone]
    | some found =>
        have hsome : (inLoop? text).isSome = true :=
          LoopBody.firstInside_isSome_of_subset (LoopBody.countedOpeners_subset text)
            (LoopBody.countedOpeners_pairwise text) (LoopBody.loopOpeners_pairwise text)
            (fun _ hb => LoopBody.braceAt_of_mem_loopOpeners hb) .nil (Option.isSome_of_eq_some hfound)
        rw [hnone] at hsome
        cases hsome

theorem check_withReturns (reportPlain reportLoop : Bool) {text : List Char}
    (h : reportLoop = true → LoopBody.HeadersFit text ∨ inLoop? text = none) :
    check reportPlain reportLoop (Text.withReturns text) =
      (check reportPlain reportLoop text).map (Detection.withReturns text) := by
  unfold check
  rw [starts_withReturns]
  cases starts text with
  | nil => rfl
  | cons first later =>
      cases reportLoop with
      | false => cases reportPlain <;> rfl
      | true =>
          simp only [if_true, List.map_cons, inLoop?_withReturns (h rfl)]
          cases inLoop? text with
          | some inner => rfl
          | none => cases reportPlain <;> rfl

end DebugPrint

end Neatness
