import Neatness.Proofs.PrintsInLoops
import Neatness.Proofs.ShownBytes

/-!
# Openers are taken in turn

The walk over loop bodies looks at one opener only, the next one.  That is enough, since the openers
ascend and the walk takes each of them at its brace.

* `Text.mem_occurrences` says that whole words are found: an occurrence never reaches over a place
  where another word opens.  So the loop keywords are the whole words `for` and `while`, all of
  them (`LoopBody.exists_keyword_iff`).
* `LoopBody.mem_offsetsOf_iff_byteAt?` tells a place of a character by the bytes of the text, and
  `LoopBody.mem_loopOpeners_iff_opensBody` says which of these bytes are openers.
* `LoopBody.Walk.UnderWay` are the states that the walk comes to before it ends.  What they say
  about openers is `UnderWay.inTurn`, and `underWay_concat_iff` says when the walk gets behind a
  character: when a mark is still ahead there, and none was found before.
* `DebugPrint.openers_taken_in_turn` puts this together for the walk along the prints of a text.
-/

namespace Neatness

/-! ## Whole words -/

namespace Text

/-- The form takes words: at least one character, and word characters only. -/
def Form.TakesWords (form : Form) : Prop :=
  ∀ cs n, form cs = some n → ∃ c word rest, cs = c :: word ++ rest ∧ n = word.length + 1 ∧
    isWordChar c = true ∧ ∀ d ∈ word, isWordChar d = true

section WholeWords

variable {form : Form} {front here : List Char} {n : Nat}

/-- Where a word opens, nothing is skipped: what is skipped lies inside a word, and no other word
opens there. -/
theorem mem_occurrencesFrom (hform : form.TakesWords) {before : Option Char} {offset skip : Nat}
    (hskipped : ∀ c ∈ (front ++ here).take skip, isWordChar c = true)
    (hbefore : 0 < skip → opensWord before = false)
    (hopens : opensWord (front.getLast?.or before) = true) (hhere : form here = some n) :
    ⟨offset + byteLength front, here, n⟩ ∈
      occurrencesFrom opensWord form before offset skip (front ++ here) := by
  induction front generalizing before offset skip with
  | nil =>
      obtain ⟨c, word, rest, rfl, -⟩ := hform here n hhere
      cases skip with
      | succ skip =>
          have hclosed := hbefore (Nat.succ_pos skip)
          rw [List.getLast?_nil, Option.none_or, hclosed] at hopens
          cases hopens
      | zero =>
          rw [List.getLast?_nil, Option.none_or] at hopens
          rw [List.nil_append, List.cons_append, occurrencesFrom, if_pos hopens]
          rw [List.cons_append] at hhere
          simp only [hhere]
          exact List.mem_cons_self
  | cons c front ih =>
      rw [getLast?_cons_or] at hopens
      rw [byteLength_cons, ← Nat.add_assoc, List.cons_append]
      cases skip with
      | succ skip =>
          rw [List.cons_append, List.take_succ_cons, List.forall_mem_cons] at hskipped
          rw [occurrencesFrom]
          exact ih hskipped.2 (fun _ => by rw [opensWord, hskipped.1]; rfl) hopens
      | zero =>
          rw [occurrencesFrom]
          cases hfound : (if opensWord before then form (c :: (front ++ here)) else none) with
          | none => exact ih (by simp) (fun h => absurd h (Nat.lt_irrefl 0)) hopens
          | some m =>
              rw [Option.ite_none_right_eq_some] at hfound
              obtain ⟨d, word, rest, hsplit, rfl, hd, hword⟩ := hform _ m hfound.2
              obtain ⟨rfl, hrest⟩ := List.cons.inj hsplit
              refine List.mem_cons_of_mem _ (ih ?_ (fun _ => by rw [opensWord, hd]; rfl) hopens)
              rw [hrest, Nat.add_sub_cancel]
              simpa using hword

/-- A word that a form takes is found wherever it opens. -/
theorem mem_occurrences (hform : form.TakesWords) (hopens : opensWord front.getLast? = true)
    (hhere : form here = some n) :
    ⟨byteLength front, here, n⟩ ∈ occurrences opensWord form (front ++ here) := by
  rw [← Option.or_none (o := front.getLast?)] at hopens
  have hmem : ⟨0 + byteLength front, here, n⟩ ∈
      occurrencesFrom opensWord form none 0 0 (front ++ here) :=
    mem_occurrencesFrom hform (by simp) (fun h => absurd h (Nat.lt_irrefl 0)) hopens hhere
  rwa [Nat.zero_add] at hmem

end WholeWords

end Text

namespace LoopBody

theorem takesWords_keyword : Text.Form.TakesWords keyword := by
  intro cs n h
  obtain ⟨word, hword, rest, rfl, -, rfl⟩ := keyword_eq_some_iff.1 h
  simp only [loopWords, List.mem_cons, List.not_mem_nil, or_false] at hword
  rcases hword with rfl | rfl
  · exact ⟨'f', ['o', 'r'], rest, rfl, rfl, by decide, List.all_eq_true.1 (by decide)⟩
  · exact ⟨'w', ['h', 'i', 'l', 'e'], rest, rfl, rfl, by decide, List.all_eq_true.1 (by decide)⟩

/-- A loop keyword ends at `e`, as a whole word: no word reaches up to it, and none goes on behind
it. -/
def KeywordEnds (text : List Char) (e : Nat) : Prop :=
  ∃ front, ∃ word ∈ loopWords, ∃ rest, text = front ++ (word ++ rest) ∧
    Text.opensWord front.getLast? = true ∧ Text.closesWord rest = true ∧
    e = Text.byteLength front + Text.byteLength word

/-- Every whole word is found as a keyword, and nothing else is. -/
theorem exists_keyword_iff {text : List Char} {e : Nat} :
    (∃ k ∈ keywords text, k.stop = e) ↔ KeywordEnds text e := by
  constructor
  · rintro ⟨k, hk, rfl⟩
    obtain ⟨front, htext, hstart, hopens⟩ := Text.exists_opens_of_mem hk
    obtain ⟨c, behind, hhere, hform⟩ := Text.form_of_mem hk
    rw [← hhere] at hform
    obtain ⟨word, hword, rest, hsplit, hcloses, hlength⟩ := keyword_eq_some_iff.1 hform
    rw [Option.or_none] at hopens
    refine ⟨front, word, hword, rest, hsplit ▸ htext, hopens, hcloses, ?_⟩
    rw [Text.Occurrence.stop, hstart, hsplit, hlength, List.take_left, Nat.zero_add]
  · rintro ⟨front, word, hword, rest, rfl, hopens, hcloses, rfl⟩
    have hform : keyword (word ++ rest) = some word.length :=
      keyword_eq_some_iff.2 ⟨word, hword, rest, rfl, hcloses, rfl⟩
    refine ⟨_, Text.mem_occurrences takesWords_keyword hopens hform, ?_⟩
    rw [Text.Occurrence.stop, List.take_left]

/-! ## Braces as bytes -/

/-- The byte at an offset of a text in UTF-8. -/
def byteAt? (text : List Char) (b : Nat) : Option UInt8 :=
  (Utf8.ofText (String.ofList text))[b]?

theorem byteAt?_eq (text : List Char) (b : Nat) :
    byteAt? text b = (text.flatMap String.utf8EncodeChar)[b]? := by
  rw [byteAt?, Utf8.ofText_eq_flatMap, String.toList_ofList]

theorem length_flatMap_utf8EncodeChar (cs : List Char) :
    (cs.flatMap String.utf8EncodeChar).length = Text.byteLength cs := by
  induction cs with
  | nil => rfl
  | cons c cs ih =>
      rw [List.flatMap_cons, List.length_append, ih, String.length_utf8EncodeChar,
        Text.byteLength_cons]

theorem byteAt?_append (front rest : List Char) (i : Nat) :
    byteAt? (front ++ rest) (Text.byteLength front + i) = byteAt? rest i := by
  rw [byteAt?_eq, List.flatMap_append, List.getElem?_append_right, length_flatMap_utf8EncodeChar,
    Nat.add_sub_cancel_left, byteAt?_eq]
  rw [length_flatMap_utf8EncodeChar]
  exact Nat.le_add_right _ i

/-- The places of a character of one byte are those of its byte. -/
theorem mem_offsetsOf_iff_byteAt? {c : Char} (hc : c.toNat < 0x80) {text : List Char} {b : Nat} :
    b ∈ offsetsOf c 0 text ↔ byteAt? text b = some (UInt8.ofNat c.toNat) := by
  rw [mem_offsetsOf_iff]
  constructor
  · rintro ⟨front, rest, rfl, rfl⟩
    rw [Nat.zero_add, ← Nat.add_zero (Text.byteLength front), byteAt?_append, byteAt?_eq,
      List.flatMap_cons, Utf8.utf8EncodeChar_eq hc]
    rfl
  · intro h
    induction text generalizing b with
    | nil =>
        rw [byteAt?_eq] at h
        cases h
    | cons d text ih =>
        have hsize : (String.utf8EncodeChar d).length = d.utf8Size := String.length_utf8EncodeChar d
        by_cases hhere : b < d.utf8Size
        · rw [byteAt?_eq, List.flatMap_cons, List.getElem?_append_left (hsize ▸ hhere)] at h
          obtain rfl := Utf8.eq_of_mem_utf8EncodeChar hc (List.mem_of_getElem? h)
          rw [Utf8.utf8EncodeChar_eq hc, List.length_singleton] at hsize
          obtain rfl : b = 0 := by omega
          exact ⟨[], text, rfl, rfl⟩
        · obtain ⟨i, rfl⟩ := Nat.exists_eq_add_of_le (Nat.le_of_not_lt hhere)
          have hbehind : byteAt? ([d] ++ text) (Text.byteLength [d] + i) = byteAt? text i :=
            byteAt?_append [d] text i
          rw [Text.byteLength_cons, Text.byteLength_nil, Nat.add_zero] at hbehind
          obtain ⟨front, rest, rfl, rfl⟩ := ih (hbehind.symm.trans h)
          refine ⟨d :: front, rest, rfl, ?_⟩
          rw [Text.byteLength_cons]
          omega

/-! ## Openers -/

/-- The byte at `b` opens the body of a loop: it is the first opening brace behind the end of a loop
keyword, less than 160 bytes behind it. -/
def OpensBody (text : List Char) (b : Nat) : Prop :=
  byteAt? text b = some 0x7b ∧ ∃ e, KeywordEnds text e ∧ e ≤ b ∧ b < e + 160 ∧
    ∀ a, e ≤ a → a < b → byteAt? text a ≠ some 0x7b

theorem mem_braces_iff {text : List Char} {b : Nat} :
    b ∈ offsetsOf openBrace 0 text ↔ byteAt? text b = some 0x7b :=
  mem_offsetsOf_iff_byteAt? (by decide)

/-- The brace of a keyword, told by bytes. -/
theorem headerBrace?_eq_some_iff {text : List Char} {k : Text.Occurrence} {b : Nat} :
    headerBrace? text k = some b ↔ byteAt? text b = some 0x7b ∧ k.stop ≤ b ∧ b < k.stop + 160 ∧
      ∀ a, k.stop ≤ a → a < b → byteAt? text a ≠ some 0x7b := by
  rw [headerBrace?, DebugPrint.find?_eq_some_iff_least (offsetsOf_pairwise openBrace 0 text)]
  simp only [mem_braces_iff, decide_eq_true_eq]
  show _ ∧ (_ ∧ b < k.stop + 160) ∧ _ ↔ _
  constructor
  · rintro ⟨hbrace, ⟨hle, hlt⟩, hleast⟩
    refine ⟨hbrace, hle, hlt, fun a hstop hab ha => ?_⟩
    have hwindow : a < k.stop + headerWindow := Nat.lt_trans hab hlt
    have hfirst := hleast a ha ⟨hstop, hwindow⟩
    omega
  · rintro ⟨hbrace, hle, hlt, hnone⟩
    refine ⟨hbrace, ⟨hle, hlt⟩, fun a ha hwindow => ?_⟩
    by_cases hab : a < b
    · exact absurd ha (hnone a hwindow.1 hab)
    · omega

theorem mem_loopOpeners_iff_opensBody {text : List Char} {b : Nat} :
    b ∈ loopOpeners text ↔ OpensBody text b := by
  rw [mem_loopOpeners_iff]
  simp only [headerBrace?_eq_some_iff]
  constructor
  · rintro ⟨k, hk, hbrace, hle, hlt, hnone⟩
    exact ⟨hbrace, k.stop, exists_keyword_iff.1 ⟨k, hk, rfl⟩, hle, hlt, hnone⟩
  · rintro ⟨hbrace, e, hends, hle, hlt, hnone⟩
    obtain ⟨k, hk, rfl⟩ := exists_keyword_iff.2 hends
    exact ⟨k, hk, hbrace, hle, hlt, hnone⟩

/-! ## The walk until it ends -/

namespace Walk

/-- The walk goes on at a character: marks are ahead, and it does not stop at one here. -/
def GoesOn (w : Walk) : Prop :=
  w.marks ≠ [] ∧ ¬(w.marks.head? = some w.offset ∧ 0 < w.openLoops)

/-- The walk over a text comes to the end of a part of it, with what it carries along there. -/
inductive UnderWay (text : List Char) (marks : List Nat) : List Char → Walk → Prop
  | start : UnderWay text marks [] (Walk.start marks text)
  | step {front rest : List Char} {c : Char} {w : Walk} (before : UnderWay text marks front w)
      (htext : text = front ++ c :: rest) (hgoes : w.GoesOn) :
      UnderWay text marks (front ++ [c]) (w.step c)

/-- What the walk does with the openers at a character. -/
structure InTurn (text front : List Char) (c : Char) (w : Walk) : Prop where
  /-- The walk is at the character. -/
  offset : w.offset = Text.byteLength front
  /-- The next opener is not behind it, nor is any later one. -/
  ahead : ∀ o ∈ w.openers, w.offset ≤ o
  /-- At the brace of an opener, it is this opener that is taken. -/
  taken : w.offset ∈ loopOpeners text →
    c = openBrace ∧ w.openers = w.offset :: (w.step c).openers
  /-- Nowhere else is one taken. -/
  kept : w.offset ∉ loopOpeners text → (w.step c).openers = w.openers
  /-- Those that are left stand behind the last byte of the character. -/
  left : ∀ o ∈ (w.step c).openers, w.offset + c.utf8Size ≤ o

/-- The walk takes an opener at its brace, and goes on behind it. -/
def Takes (text : List Char) (marks : List Nat) (o : Nat) : Prop :=
  ∃ front w, UnderWay text marks front w ∧ w.offset = o ∧
    w.openers = o :: (w.step openBrace).openers ∧
    UnderWay text marks (front ++ [openBrace]) (w.step openBrace)

/-- What is found is not behind the walk. -/
theorem le_of_search {w : Walk} {cs : List Char} {p : Nat} (h : w.search cs = some p) :
    w.offset ≤ p := by
  induction cs generalizing w with
  | nil => simp [search] at h
  | cons c cs ih =>
      rw [search_cons] at h
      split at h
      · exact Nat.le_of_eq (Option.some.inj h)
      · exact Nat.le_trans (Nat.le_add_right w.offset c.utf8Size) (ih h)

namespace UnderWay

variable {text front rest : List Char} {marks : List Nat} {c : Char} {w : Walk}

theorem eq_after (h : UnderWay text marks front w) :
    w = (Walk.start marks text).after front := by
  induction h with
  | start => rfl
  | step _ _ _ ih =>
      rw [ih, after, after, List.foldl_append]
      rfl

theorem isPrefix (h : UnderWay text marks front w) : front <+: text := by
  cases h with
  | start => exact List.nil_prefix
  | @step front rest c w _ htext _ => exact ⟨rest, by rw [htext, List.append_assoc]; rfl⟩

/-- As long as the walk is under way, what it finds is what it finds from there on. -/
theorem search_eq (h : UnderWay text marks front w) (htext : text = front ++ rest) :
    (Walk.start marks text).search text = w.search rest := by
  induction h generalizing rest with
  | start => rw [htext, List.nil_append]
  | @step front behind c w _ hsplit hgoes ih =>
      rw [List.append_assoc] at htext
      rw [ih htext]
      exact (search_cons w c rest).trans (if_neg hgoes.2)

theorem follows (hmarks : Marks text marks) (htext : text = front ++ rest)
    (h : UnderWay text marks front w) : Follows text marks front w :=
  h.eq_after ▸ follows_after hmarks htext

theorem inTurn (hmarks : Marks text marks) (htext : text = front ++ c :: rest)
    (h : UnderWay text marks front w) : InTurn text front c w := by
  have hfollows := h.follows hmarks htext
  have hnext := hfollows.step hmarks htext
  have hascend := loopOpeners_pairwise text
  have hhead : w.openers.head? = some w.offset ↔ w.offset ∈ loopOpeners text := by
    rw [hfollows.openers, hfollows.offset]
    exact head?_ahead_iff hascend
  refine ⟨hfollows.offset, fun o ho => ?_, fun hhere => ?_, fun hother => ?_, fun o ho => ?_⟩
  · rw [hfollows.openers] at ho
    rw [hfollows.offset]
    exact (mem_ahead_iff.1 ho).2
  · have hbrace := eq_openBrace_of_mem_loopOpeners htext (hfollows.offset ▸ hhere)
    obtain ⟨later, hlater⟩ := List.head?_eq_some_iff.1 (hhead.2 hhere)
    refine ⟨hbrace, ?_⟩
    show w.openers = w.offset :: openersAfter w.openers w.offset c
    rw [openersAfter, if_pos ⟨hbrace, hhead.2 hhere⟩, hlater, List.tail_cons]
  · exact if_neg fun htakes => hother (hhead.1 htakes.2)
  · rw [hnext.openers] at ho
    have hle := (mem_ahead_iff.1 ho).2
    rwa [Text.byteLength_concat, ← hfollows.offset] at hle

end UnderWay

/-- The walk came to the character before. -/
theorem UnderWay.exists_before {text front : List Char} {marks : List Nat} {c : Char} {w : Walk}
    (h : UnderWay text marks (front ++ [c]) w) :
    ∃ v, UnderWay text marks front v ∧ v.GoesOn ∧ w = v.step c := by
  generalize hpart : front ++ [c] = part at h
  cases h with
  | start => simp at hpart
  | step before _ hgoes =>
      obtain ⟨rfl, hlast⟩ := List.append_inj' hpart rfl
      obtain ⟨rfl, -⟩ := List.cons.inj hlast
      exact ⟨_, before, hgoes, rfl⟩

section Ends

variable {text front rest : List Char} {marks : List Nat} {c : Char} {m : Nat}
  (hmarks : Marks text marks) (hmem : m ∈ marks)

include hmarks hmem

/-- With a mark ahead and none found yet, the walk takes a step. -/
theorem UnderWay.step_of_ahead {w : Walk} (h : UnderWay text marks front w)
    (htext : text = front ++ c :: rest) (hle : Text.byteLength front ≤ m)
    (hfound : ∀ p, (Walk.start marks text).search text = some p → Text.byteLength front < p) :
    UnderWay text marks (front ++ [c]) (w.step c) := by
  have hfollows := h.follows hmarks htext
  refine h.step htext ⟨?_, fun hstop => ?_⟩
  · rw [hfollows.marks]
    exact List.ne_nil_of_mem (mem_ahead_iff.2 ⟨hmem, hle⟩)
  · have hresult : (Walk.start marks text).search text = some w.offset := by
      rw [h.search_eq htext, search_cons, if_pos hstop]
    have hlt := hfound _ hresult
    rw [hfollows.offset] at hlt
    exact absurd hlt (Nat.lt_irrefl _)

theorem exists_underWay (htext : text = front ++ rest) (hle : Text.byteLength front ≤ m)
    (hfound : ∀ p, (Walk.start marks text).search text = some p → Text.byteLength front ≤ p) :
    ∃ w, UnderWay text marks front w := by
  induction front using List.reverseRecOn generalizing rest with
  | nil => exact ⟨_, .start⟩
  | append_singleton front c ih =>
      have hsize := c.utf8Size_pos
      rw [Text.byteLength_concat] at hle hfound
      rw [List.append_assoc] at htext
      obtain ⟨w, hw⟩ := ih htext (by omega) fun p hp => Nat.le_of_add_right_le (hfound p hp)
      have hbehind : ∀ p, (Walk.start marks text).search text = some p →
          Text.byteLength front < p := by
        intro p hp
        have hle := hfound p hp
        omega
      exact ⟨_, hw.step_of_ahead hmarks hmem htext (by omega) hbehind⟩

end Ends

/-- The walk gets behind a character exactly if a mark is still ahead there and none has been found
up to there. -/
theorem underWay_concat_iff {text front rest : List Char} {marks : List Nat} {c : Char}
    (hmarks : Marks text marks) (htext : text = front ++ c :: rest) :
    (∃ w, UnderWay text marks (front ++ [c]) w) ↔
      (∃ m ∈ marks, Text.byteLength front ≤ m) ∧
        ∀ p, (Walk.start marks text).search text = some p → Text.byteLength front < p := by
  constructor
  · rintro ⟨w, h⟩
    obtain ⟨v, hbefore, hgoes, rfl⟩ := h.exists_before
    have hfollows := hbefore.follows hmarks htext
    constructor
    · obtain ⟨m, hm⟩ := List.exists_mem_of_ne_nil _ hgoes.1
      rw [hfollows.marks] at hm
      exact ⟨m, mem_ahead_iff.1 hm⟩
    · intro p hp
      have hsize := c.utf8Size_pos
      have hsplit : text = (front ++ [c]) ++ rest := by
        rw [List.append_assoc]
        exact htext
      rw [h.search_eq hsplit] at hp
      have hle := le_of_search hp
      have hoffset : (v.step c).offset = v.offset + c.utf8Size := rfl
      rw [hoffset, hfollows.offset] at hle
      omega
  · rintro ⟨⟨m, hm, hle⟩, hfound⟩
    obtain ⟨w, hw⟩ := exists_underWay hmarks hm htext hle fun p hp => Nat.le_of_lt (hfound p hp)
    exact ⟨_, hw.step_of_ahead hmarks hm htext hle hfound⟩

/-- An opener is taken exactly if the walk has not ended in front of it. -/
theorem takes_iff {text : List Char} {marks : List Nat} {o : Nat} (hmarks : Marks text marks)
    (ho : o ∈ loopOpeners text) :
    Takes text marks o ↔ (∃ m ∈ marks, o ≤ m) ∧
      ∀ p, (Walk.start marks text).search text = some p → o < p := by
  obtain ⟨front, rest, htext, hplace⟩ := braceAt_of_mem_loopOpeners ho
  obtain rfl : o = Text.byteLength front := hplace.trans (Nat.zero_add _)
  rw [← underWay_concat_iff hmarks htext]
  constructor
  · rintro ⟨other, w, hw, hoffset, -, hstep⟩
    -- It comes to the place of the opener in one way only.
    obtain ⟨behind, hother⟩ := hstep.isPrefix
    rw [List.append_assoc] at hother
    have hsame : Text.byteLength front = Text.byteLength other := by
      rw [← hoffset, (hw.follows hmarks hother.symm).offset]
    obtain ⟨rfl, -⟩ := Text.append_inj_of_byteLength (htext.symm.trans hother.symm) hsame
    exact ⟨_, hstep⟩
  · rintro ⟨v, hv⟩
    obtain ⟨w, hw, -, rfl⟩ := hv.exists_before
    have hturn := hw.inTurn hmarks htext
    have htaken := (hturn.taken (hturn.offset ▸ ho)).2
    exact ⟨front, w, hw, hturn.offset, hturn.offset ▸ htaken, hv⟩

end Walk
end LoopBody

/-! ## The walk along the prints -/

namespace DebugPrint

open LoopBody (OpensBody Walk)

/-- The openers ascend strictly, and they are the braces that open the body of a loop.  As long as
the walk along the prints has not ended, no opener is behind it, and it takes the openers at their
braces and nowhere else: an opener is taken exactly if a print is still ahead at its brace, and none
was found in a loop before. -/
theorem openers_taken_in_turn (text : List Char) :
    (LoopBody.loopOpeners text).Pairwise (· < ·) ∧
    (∀ b, b ∈ LoopBody.loopOpeners text ↔ OpensBody text b) ∧
    (∀ front c rest w, text = front ++ c :: rest → Walk.UnderWay text (starts text) front w →
      inLoop? text = w.search (c :: rest) ∧ Walk.InTurn text front c w) ∧
    ∀ o ∈ LoopBody.loopOpeners text, Walk.Takes text (starts text) o ↔
      (∃ p ∈ starts text, o ≤ p) ∧ ∀ p, inLoop? text = some p → o < p := by
  have hmarks := marks_starts text
  refine ⟨LoopBody.loopOpeners_pairwise text, fun b => LoopBody.mem_loopOpeners_iff_opensBody,
    fun front c rest w htext hway => ⟨?_, hway.inTurn hmarks htext⟩, fun o ho => ?_⟩
  · rw [inLoop?_eq_search]
    exact hway.search_eq htext
  · rw [inLoop?_eq_search]
    exact Walk.takes_iff hmarks ho

/-- A loop keyword that is too far away from a brace, two that share it, and one with the next
brace. -/
def farKeyword : List Char :=
  "while (".toList ++ List.replicate 53 '€' ++ "for while\x7bfor\x7bputs".toList

theorem openers_taken_in_turn_farKeyword :
    LoopBody.loopOpeners farKeyword = [175, 179] ∧ OpensBody farKeyword 179 ∧
    ∃ front rest w, Walk.UnderWay farKeyword (starts farKeyword) front w ∧ w.offset = 175 ∧
      w.openers = 175 :: (w.step LoopBody.openBrace).openers ∧
      inLoop? farKeyword = w.search (LoopBody.openBrace :: rest) ∧
      ∀ o ∈ (w.step LoopBody.openBrace).openers, 175 < o := by
  obtain ⟨-, hopens, hturn, htakes⟩ := openers_taken_in_turn farKeyword
  have hopeners : LoopBody.loopOpeners farKeyword = [175, 179] := by decide +kernel
  have hfirst : 175 ∈ LoopBody.loopOpeners farKeyword := by simp [hopeners]
  have hfound : inLoop? farKeyword = some 180 := by decide +kernel
  have hahead : ∀ p, inLoop? farKeyword = some p → 175 < p := by
    intro p hp
    obtain rfl := Option.some.inj (hfound.symm.trans hp)
    decide
  obtain ⟨front, w, hway, hoffset, htaken, hstep⟩ :=
    (htakes 175 hfirst).2 ⟨⟨180, by decide +kernel, by decide⟩, hahead⟩
  obtain ⟨rest, hrest⟩ := hstep.isPrefix
  rw [List.append_assoc] at hrest
  obtain ⟨hsearch, hleft⟩ := hturn front LoopBody.openBrace rest w hrest.symm hway
  refine ⟨hopeners, (hopens 179).1 (by simp [hopeners]), front, rest, w, hway, hoffset, htaken,
    hsearch, fun o ho => ?_⟩
  have hbehind := hleft.left o ho
  rwa [hoffset] at hbehind

end DebugPrint
end Neatness
