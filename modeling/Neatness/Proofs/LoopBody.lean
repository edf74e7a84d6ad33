import Mathlib.Data.List.Forall2
import Neatness.Detection.LoopBody
import Neatness.Proofs.Search

/-!
# Where loop bodies open

* `keyword_eq_some_iff` says where a loop keyword stands, and `braceWithin_eq_some_iff` which brace
  it takes.
* `eraseReps_append` and `eraseReps_map` are about leaving out repetitions.
* `opener?_bounds` places the brace of a keyword in the text.
* `loopOpeners_pairwise` says that loop bodies open in ascending order, and
  `firstInside_isSome_of_subset` that with fewer of them no more marks lie in a loop body.
-/

namespace Neatness

/-! ## Leaving out repetitions -/

theorem eraseRepsBy_loop_eq {α : Type} (r : α → α → Bool) (a : α) (as done : List α) :
    List.eraseRepsBy.loop r a as done = done.reverse ++ List.eraseRepsBy.loop r a as [] := by
  induction as generalizing a done with
  | nil => simp [List.eraseRepsBy.loop]
  | cons b bs ih =>
      rw [List.eraseRepsBy.loop, List.eraseRepsBy.loop]
      cases hr : r a b with
      | true => exact ih a done
      | false =>
          show List.eraseRepsBy.loop r b bs (a :: done) =
            done.reverse ++ List.eraseRepsBy.loop r b bs [a]
          rw [ih b (a :: done), ih b [a]]
          simp

theorem eraseReps_cons_cons (a b : Nat) (l : List Nat) :
    (a :: b :: l).eraseReps =
      if a = b then (b :: l).eraseReps else a :: (b :: l).eraseReps := by
  show List.eraseRepsBy.loop (· == ·) a (b :: l) [] = _
  rw [List.eraseRepsBy.loop]
  by_cases hab : a = b
  · subst hab
    simp only [BEq.rfl, if_true]
    rfl
  · have hne : (a == b) = false := by simpa using hab
    simp only [hne, if_neg hab]
    rw [eraseRepsBy_loop_eq]
    rfl

@[simp] theorem mem_eraseReps {a : Nat} {l : List Nat} : a ∈ l.eraseReps ↔ a ∈ l := by
  induction l with
  | nil => rfl
  | cons b l ih =>
      cases l with
      | nil => rfl
      | cons c l =>
          rw [eraseReps_cons_cons]
          by_cases hbc : b = c
          · rw [if_pos hbc, ih, List.mem_cons (a := a) (b := b), hbc]
            simp
          · rw [if_neg hbc, List.mem_cons, ih, List.mem_cons (a := a) (b := b)]

/-- Repetitions do not reach across a border that no number crosses. -/
theorem eraseReps_append {l m : List Nat} (h : ∀ a ∈ l, ∀ b ∈ m, a ≠ b) :
    (l ++ m).eraseReps = l.eraseReps ++ m.eraseReps := by
  induction l with
  | nil => rfl
  | cons a l ih =>
      have hrest := ih fun b hb => h b (List.mem_cons_of_mem a hb)
      cases l with
      | nil =>
          cases m with
          | nil => simp [List.eraseReps, List.eraseRepsBy]
          | cons b m =>
              have hab : a ≠ b := h a List.mem_cons_self b List.mem_cons_self
              rw [List.singleton_append, eraseReps_cons_cons, if_neg hab]
              rfl
      | cons b l =>
          rw [List.cons_append, List.cons_append, eraseReps_cons_cons, eraseReps_cons_cons,
            ← List.cons_append, hrest]
          split <;> rfl

/-- Numbers repeat exactly where their images under an injection do. -/
theorem eraseReps_map {f : Nat → Nat} (hf : ∀ a b, f a = f b → a = b) (l : List Nat) :
    (l.map f).eraseReps = l.eraseReps.map f := by
  induction l with
  | nil => rfl
  | cons a l ih =>
      cases l with
      | nil => rfl
      | cons b l =>
          rw [List.map_cons, List.map_cons, eraseReps_cons_cons, eraseReps_cons_cons,
            ← List.map_cons, ih]
          by_cases hab : a = b
          · rw [if_pos hab, if_pos (congrArg f hab)]
          · rw [if_neg hab, if_neg fun h => hab (hf a b h), List.map_cons]

/-- What ascends is strictly ascending without repetitions. -/
theorem eraseReps_pairwise {l : List Nat} (h : l.Pairwise (· ≤ ·)) :
    l.eraseReps.Pairwise (· < ·) := by
  induction l with
  | nil => exact .nil
  | cons a l ih =>
      have hrest := ih (List.pairwise_cons.1 h).2
      cases l with
      | nil => exact List.pairwise_singleton _ a
      | cons b l =>
          rw [eraseReps_cons_cons]
          split
          · exact hrest
          · rename_i hab
            refine List.pairwise_cons.2 ⟨fun c hc => ?_, hrest⟩
            obtain ⟨hfirst, hlater⟩ := List.pairwise_cons.1 h
            have hb := hfirst b List.mem_cons_self
            rcases List.mem_cons.1 (mem_eraseReps.1 hc) with rfl | hc
            · omega
            · have hbc := (List.pairwise_cons.1 hlater).1 c hc
              omega

namespace LoopBody

/-! ## The brace of a keyword -/

/-- The words that start a loop. -/
def loopWords : List (List Char) :=
  [['f', 'o', 'r'], ['w', 'h', 'i', 'l', 'e']]

/-- A loop keyword is one of the words, and ends there. -/
theorem keyword_eq_some_iff {cs : List Char} {n : Nat} :
    keyword cs = some n ↔ ∃ word ∈ loopWords, ∃ rest, cs = word ++ rest ∧
      Text.closesWord rest = true ∧ n = word.length := by
  constructor
  · intro h
    unfold keyword Text.Form.oneOf at h
    obtain ⟨form, hform, hstands⟩ := List.exists_of_findSome?_eq_some h
    simp only [List.mem_cons, List.not_mem_nil, or_false] at hform
    rcases hform with rfl | rfl
    · exact ⟨_, List.mem_cons_self, Text.literal_andThen_wordEnd_eq_some_iff.1 hstands⟩
    · exact ⟨_, List.mem_cons_of_mem _ List.mem_cons_self,
        Text.literal_andThen_wordEnd_eq_some_iff.1 hstands⟩
  · rintro ⟨word, hword, rest, rfl, hcloses, rfl⟩
    have hstands : ((Text.literal word).andThen (Text.wordEnd Text.closesWord)) (word ++ rest) =
        some word.length := Text.literal_andThen_wordEnd_eq_some_iff.2 ⟨rest, rfl, hcloses, rfl⟩
    unfold keyword Text.Form.oneOf
    simp only [loopWords, List.mem_cons, List.not_mem_nil, or_false] at hword
    rcases hword with rfl | rfl
    · simp only [List.findSome?_cons, hstands]
    · have hother : ((Text.literal ['f', 'o', 'r']).andThen (Text.wordEnd Text.closesWord))
          (['w', 'h', 'i', 'l', 'e'] ++ rest) = none := rfl
      simp only [List.findSome?_cons, hother, hstands]

/-- The brace of a keyword is the first one behind it, and what stands in between is shorter than
the window. -/
theorem braceWithin_eq_some_iff {window offset b : Nat} {cs : List Char} :
    braceWithin window offset cs = some b ↔
      ∃ header body, cs = header ++ openBrace :: body ∧ openBrace ∉ header ∧
        Text.byteLength header < window ∧ b = offset + Text.byteLength header := by
  induction cs generalizing window offset with
  | nil => simp [braceWithin]
  | cons c cs ih =>
      have hsize := c.utf8Size_pos
      rw [braceWithin]
      by_cases hwindow : window = 0
      · rw [if_pos hwindow]
        constructor
        · intro h
          cases h
        · rintro ⟨header, -, -, -, hlt, -⟩
          omega
      rw [if_neg hwindow]
      by_cases hbrace : c = openBrace
      · rw [if_pos hbrace]
        constructor
        · intro h
          obtain rfl := Option.some.inj h
          exact ⟨[], cs, by rw [hbrace]; rfl, by simp, by simp; omega, rfl⟩
        · rintro ⟨header, body, heq, hnot, -, rfl⟩
          cases header with
          | nil => rfl
          | cons d header =>
              have hd : c = d := (List.cons.inj heq).1
              exact absurd (hbrace.symm.trans hd) fun h => hnot (h ▸ List.mem_cons_self)
      · rw [if_neg hbrace, ih]
        constructor
        · rintro ⟨header, body, rfl, hnot, hlt, rfl⟩
          refine ⟨c :: header, body, rfl, ?_, ?_, ?_⟩
          · rw [List.mem_cons, not_or]
            exact ⟨fun h => hbrace h.symm, hnot⟩
          · rw [Text.byteLength_cons]
            omega
          · rw [Text.byteLength_cons]
            omega
        · rintro ⟨header, body, heq, hnot, hlt, rfl⟩
          cases header with
          | nil => exact absurd (List.cons.inj heq).1 hbrace
          | cons d header =>
              obtain ⟨rfl, rfl⟩ := List.cons.inj heq
              rw [Text.byteLength_cons] at hlt ⊢
              refine ⟨header, body, rfl, fun h => hnot (List.mem_cons_of_mem c h), ?_, ?_⟩
              · omega
              · omega

/-- The opening brace of a loop keyword. -/
def opener? (k : Text.Occurrence) : Option Nat :=
  braceWithin headerWindow k.stop k.rest

theorem loopOpeners_eq (text : List Char) :
    loopOpeners text = ((keywords text).filterMap opener?).eraseReps := rfl

theorem opener?_eq_none_of_not_mem {k : Text.Occurrence} (h : openBrace ∉ k.rest) :
    opener? k = none := by
  cases hopener : opener? k with
  | none => rfl
  | some b =>
      obtain ⟨header, body, hrest, -⟩ := braceWithin_eq_some_iff.1 hopener
      exact absurd (by simp [hrest]) h

/-- Where no brace follows, no keyword has one. -/
theorem filterMap_opener?_eq_nil {opens : Option Char → Bool} {form : Text.Form}
    {before : Option Char} {offset skip : Nat} {cs : List Char}
    (h : openBrace ∉ cs.drop skip) :
    (Text.occurrencesFrom opens form before offset skip cs).filterMap opener? = [] := by
  rw [List.filterMap_eq_nil_iff]
  intro k hk
  apply opener?_eq_none_of_not_mem
  intro hmem
  exact h ((Text.here_suffix_of_mem hk).subset (List.mem_of_mem_drop hmem))

/-- The brace of a keyword stands behind the start of the keyword and inside the text. -/
theorem opener?_bounds {k : Text.Occurrence} {b : Nat} (h : opener? k = some b) :
    k.start ≤ b ∧ b < k.start + Text.byteLength k.here := by
  obtain ⟨header, body, hrest, -, -, rfl⟩ := braceWithin_eq_some_iff.1 h
  have hsize := openBrace.utf8Size_pos
  have hhere : Text.byteLength k.here =
      Text.byteLength (k.here.take k.length) +
        (Text.byteLength header + (openBrace.utf8Size + Text.byteLength body)) := by
    rw [← Text.byteLength_cons, ← Text.byteLength_append, ← hrest, Text.Occurrence.rest,
      ← Text.byteLength_append, List.take_append_drop]
  rw [Text.Occurrence.stop]
  omega

/-! ## The order of the braces -/

/-- A brace stands at `b`, in the text that starts at `offset`. -/
def BraceAt (offset : Nat) (cs : List Char) (b : Nat) : Prop :=
  ∃ front rest, cs = front ++ openBrace :: rest ∧ b = offset + Text.byteLength front

theorem braceAt_cons {offset b : Nat} {c : Char} {cs : List Char}
    (h : BraceAt offset (c :: cs) b) :
    c = openBrace ∧ b = offset ∨ offset < b ∧ BraceAt (offset + c.utf8Size) cs b := by
  obtain ⟨front, rest, hcs, rfl⟩ := h
  cases front with
  | nil => exact .inl ⟨(List.cons.inj hcs).1, rfl⟩
  | cons d front =>
      obtain ⟨rfl, rfl⟩ := List.cons.inj hcs
      have hsize := c.utf8Size_pos
      refine .inr ⟨?_, front, rest, rfl, ?_⟩
      · rw [Text.byteLength_cons]
        omega
      · rw [Text.byteLength_cons, Nat.add_assoc]

/-- The braces of keywords stand behind what is skipped. -/
theorem braceAt_of_mem {opens : Option Char → Bool} {form : Text.Form} {before : Option Char}
    {offset skip b : Nat} {cs : List Char}
    (h : b ∈ (Text.occurrencesFrom opens form before offset skip cs).filterMap opener?) :
    BraceAt (offset + Text.byteLength (cs.take skip)) (cs.drop skip) b := by
  obtain ⟨k, hk, hopener⟩ := List.mem_filterMap.1 h
  obtain ⟨header, body, hrest, -, -, rfl⟩ := braceWithin_eq_some_iff.1 hopener
  obtain ⟨front, hfront⟩ := Text.here_suffix_of_mem hk
  have hend := Text.start_add_of_mem hk
  have hsplit : cs.drop skip =
      front ++ k.here.take k.length ++ header ++ openBrace :: body := by
    rw [List.append_assoc, ← hrest, List.append_assoc, Text.Occurrence.rest,
      List.take_append_drop, hfront]
  refine ⟨_, body, hsplit, ?_⟩
  have hlength : Text.byteLength cs =
      Text.byteLength (cs.take skip) + (Text.byteLength front + Text.byteLength k.here) := by
    rw [← Text.byteLength_append, hfront, ← Text.byteLength_append, List.take_append_drop]
  rw [Text.Occurrence.stop, Text.byteLength_append, Text.byteLength_append]
  omega

/-- The first brace of a text comes no later than any other. -/
theorem byteLength_le_of_first {header body front rest : List Char}
    (h : header ++ openBrace :: body = front ++ openBrace :: rest) (hnot : openBrace ∉ header) :
    Text.byteLength header ≤ Text.byteLength front := by
  rcases List.append_eq_append_iff.1 h with ⟨more, rfl, -⟩ | ⟨more, rfl, hmore⟩
  · rw [Text.byteLength_append]
    omega
  · cases more with
    | nil => simp
    | cons c more =>
        obtain ⟨rfl, -⟩ := List.cons.inj hmore
        exact absurd (List.mem_append_right front List.mem_cons_self) hnot

/-- The braces of keywords ascend. -/
theorem openers_pairwise {opens : Option Char → Bool} {form : Text.Form}
    (hform : ∀ cs n, form cs = some n → 0 < n) {before : Option Char} {offset skip : Nat}
    {cs : List Char} :
    ((Text.occurrencesFrom opens form before offset skip cs).filterMap opener?).Pairwise
      (· ≤ ·) := by
  induction cs generalizing before offset skip with
  | nil => exact .nil
  | cons c cs ih =>
      cases skip with
      | succ skip =>
          rw [Text.occurrencesFrom]
          exact ih
      | zero =>
          rw [Text.occurrencesFrom]
          cases hhere : (if opens before then form (c :: cs) else none) with
          | none => exact ih
          | some n =>
              cases hopener : opener? ⟨offset, c :: cs, n⟩ with
              | none =>
                  rw [List.filterMap_cons_none hopener]
                  exact ih
              | some b =>
                  rw [List.filterMap_cons_some hopener]
                  refine List.pairwise_cons.2 ⟨fun later hlater => ?_, ih⟩
                  obtain ⟨header, body, hrest, hnot, -, rfl⟩ := braceWithin_eq_some_iff.1 hopener
                  obtain ⟨front, rest, hfront, rfl⟩ := braceAt_of_mem hlater
                  have hpos : 0 < n := by
                    split at hhere
                    · exact hform _ n hhere
                    · cases hhere
                  -- The brace of a later keyword stands behind this keyword too.
                  obtain ⟨m, rfl⟩ : ∃ m, n = m + 1 := ⟨n - 1, by omega⟩
                  have hle := byteLength_le_of_first (hrest.symm.trans hfront) hnot
                  rw [Text.Occurrence.stop, List.take_succ_cons, Text.byteLength_cons]
                  simp only [Nat.add_sub_cancel]
                  omega

theorem openers_pairwise_keywords (text : List Char) :
    ((keywords text).filterMap opener?).Pairwise (· ≤ ·) := by
  apply openers_pairwise
  intro cs n h
  obtain ⟨word, hword, -, -, -, rfl⟩ := keyword_eq_some_iff.1 h
  exact (by decide : ∀ word ∈ loopWords, 0 < word.length) word hword

/-- Loop bodies open in ascending order. -/
theorem loopOpeners_pairwise (text : List Char) : (loopOpeners text).Pairwise (· < ·) :=
  eraseReps_pairwise (openers_pairwise_keywords text)

theorem braceAt_of_mem_loopOpeners {text : List Char} {b : Nat} (h : b ∈ loopOpeners text) :
    BraceAt 0 text b :=
  braceAt_of_mem (mem_eraseReps.1 h)

/-! ## One step of the walk -/

/-- The openers that are left behind a character. -/
def openersAfter (openers : List Nat) (offset : Nat) (c : Char) : List Nat :=
  if c = openBrace ∧ openers.head? = some offset then openers.tail else openers

/-- The open blocks behind a character; `isLoop` says whether a brace here opens a loop body. -/
def bracesAfter (isLoop : Bool) (c : Char) (braces : List Bool) : List Bool :=
  if c = openBrace then isLoop :: braces
  else if c = closeBrace then braces.tail
  else braces

/-- The number of open loop bodies behind a character. -/
def openLoopsAfter (isLoop : Bool) (c : Char) (braces : List Bool) (openLoops : Nat) : Nat :=
  if c = openBrace then if isLoop then openLoops + 1 else openLoops
  else if c = closeBrace ∧ braces.head? = some true then openLoops - 1
  else openLoops

/-- The walk stops at a mark inside a loop body, and otherwise goes on behind the character. -/
theorem firstInside_cons (mark : Nat) (later openers : List Nat) (braces : List Bool)
    (openLoops offset : Nat) (c : Char) (cs : List Char) :
    firstInside (mark :: later) openers braces openLoops offset (c :: cs) =
      if mark = offset ∧ 0 < openLoops then some offset
      else firstInside (if mark = offset then later else mark :: later)
        (openersAfter openers offset c) (bracesAfter (openers.head? == some offset) c braces)
        (openLoopsAfter (openers.head? == some offset) c braces openLoops)
        (offset + c.utf8Size) cs := by
  rw [firstInside]
  congr 1
  unfold openersAfter bracesAfter openLoopsAfter
  by_cases hopen : c = openBrace
  · by_cases hhead : openers.head? = some offset
    · simp [hopen, hhead]
    · have hother : (openers.head? == some offset) = false := by simpa using hhead
      simp [hopen, hhead, hother]
  · by_cases hclose : c = closeBrace
    · have hne : closeBrace ≠ openBrace := by decide
      cases braces with
      | nil => simp [hclose, hne]
      | cons isLoop outer => cases isLoop <;> simp [hclose, hne]
    · simp [hopen, hclose]

/-- A character that is no brace leaves the blocks as they are. -/
theorem firstInside_cons_of_ne {c : Char} (hopen : c ≠ openBrace) (hclose : c ≠ closeBrace)
    (mark : Nat) (later openers : List Nat) (braces : List Bool) (openLoops offset : Nat)
    (cs : List Char) :
    firstInside (mark :: later) openers braces openLoops offset (c :: cs) =
      if mark = offset ∧ 0 < openLoops then some offset
      else firstInside (if mark = offset then later else mark :: later) openers braces openLoops
        (offset + c.utf8Size) cs := by
  rw [firstInside_cons]
  simp [openersAfter, bracesAfter, openLoopsAfter, hopen, hclose]

@[simp] theorem firstInside_nil_marks (openers : List Nat) (braces : List Bool)
    (openLoops offset : Nat) (cs : List Char) :
    firstInside [] openers braces openLoops offset cs = none := by
  cases cs <;> rfl

@[simp] theorem firstInside_nil (marks openers : List Nat) (braces : List Bool)
    (openLoops offset : Nat) : firstInside marks openers braces openLoops offset [] = none := by
  cases marks <;> rfl

/-! ## Fewer loop bodies -/

section Ahead

variable {openers : List Nat} {offset : Nat} {c : Char} {cs : List Char}
  (hascend : openers.Pairwise (· < ·)) (hbraces : ∀ b ∈ openers, BraceAt offset (c :: cs) b)

include hascend hbraces in
/-- An opener that stands here comes first. -/
theorem head?_eq_some_iff_mem : openers.head? = some offset ↔ offset ∈ openers := by
  constructor
  · exact List.mem_of_mem_head?
  · intro hmem
    cases openers with
    | nil => cases hmem
    | cons a openers =>
        rcases List.mem_cons.1 hmem with rfl | hmem
        · rfl
        · have hlt := (List.pairwise_cons.1 hascend).1 offset hmem
          rcases braceAt_cons (hbraces a List.mem_cons_self) with ⟨-, rfl⟩ | ⟨hbehind, -⟩ <;> omega

include hascend hbraces in
/-- The openers that are left are those that do not stand here. -/
theorem mem_openersAfter_iff {b : Nat} :
    b ∈ openersAfter openers offset c ↔ b ∈ openers ∧ b ≠ offset := by
  have hhead := head?_eq_some_iff_mem hascend hbraces
  unfold openersAfter
  by_cases hhere : offset ∈ openers
  · have hopen : c = openBrace := by
      rcases braceAt_cons (hbraces offset hhere) with ⟨hopen, -⟩ | ⟨hbehind, -⟩
      · exact hopen
      · omega
    rw [if_pos ⟨hopen, hhead.2 hhere⟩]
    obtain ⟨later, rfl⟩ := List.head?_eq_some_iff.1 (hhead.2 hhere)
    rw [List.tail_cons, List.mem_cons]
    constructor
    · intro hb
      have hlt := (List.pairwise_cons.1 hascend).1 b hb
      exact ⟨.inr hb, by omega⟩
    · rintro ⟨hb | hb, hne⟩
      · exact absurd hb hne
      · exact hb
  · rw [if_neg fun h => hhere (hhead.1 h.2)]
    constructor
    · exact fun hb => ⟨hb, fun heq => hhere (heq ▸ hb)⟩
    · exact fun hb => hb.1

end Ahead

theorem openersAfter_pairwise {openers : List Nat} (h : openers.Pairwise (· < ·)) (offset : Nat)
    (c : Char) : (openersAfter openers offset c).Pairwise (· < ·) := by
  unfold openersAfter
  split
  · exact h.tail
  · exact h

/-- The number of open loop bodies is kept up to date. -/
theorem openLoopsAfter_count (isLoop : Bool) (c : Char) (braces : List Bool) :
    openLoopsAfter isLoop c braces (braces.count true) =
      (bracesAfter isLoop c braces).count true := by
  unfold openLoopsAfter bracesAfter
  by_cases hopen : c = openBrace
  · cases isLoop <;> simp [hopen]
  · by_cases hclose : c = closeBrace
    · have hne : closeBrace ≠ openBrace := by decide
      rcases braces with _ | ⟨_ | _, braces⟩ <;> simp [hclose, hne]
    · simp [hopen, hclose]

/-- The blocks of one walk are those of another, with fewer loop bodies among them. -/
def FewerLoops : List Bool → List Bool → Prop :=
  List.Forall₂ fun fewer more => fewer = true → more = true

theorem FewerLoops.count_le {fewer more : List Bool} (h : FewerLoops fewer more) :
    fewer.count true ≤ more.count true := by
  induction h with
  | nil => exact Nat.le_refl 0
  | @cons a b fewer more hab _ ih =>
      cases a with
      | true =>
          rw [hab rfl, List.count_cons_self, List.count_cons_self]
          omega
      | false =>
          rw [List.count_cons_of_ne (by decide)]
          exact Nat.le_trans ih List.count_le_count_cons

theorem FewerLoops.bracesAfter {fewer more : List Bool} (h : FewerLoops fewer more)
    {a b : Bool} (hab : a = true → b = true) (c : Char) :
    FewerLoops (bracesAfter a c fewer) (bracesAfter b c more) := by
  unfold LoopBody.bracesAfter
  split
  · exact .cons hab h
  · split
    · cases h with
      | nil => exact .nil
      | cons _ hrest => exact hrest
    · exact h

/-- With fewer openers, no more marks lie in a loop body: where the walk with fewer of them has a loop
body open, the other one has too. -/
theorem firstInside_isSome_of_subset {marks fewer more : List Nat} {braces others : List Bool}
    {offset : Nat} {cs : List Char} (hsubset : fewer ⊆ more)
    (hfewer : fewer.Pairwise (· < ·)) (hmore : more.Pairwise (· < ·))
    (hbraces : ∀ b ∈ more, BraceAt offset cs b) (hloops : FewerLoops braces others)
    (h : (firstInside marks fewer braces (braces.count true) offset cs).isSome = true) :
    (firstInside marks more others (others.count true) offset cs).isSome = true := by
  induction cs generalizing marks fewer more braces others offset with
  | nil => simp at h
  | cons c cs ih =>
      cases marks with
      | nil => simp at h
      | cons mark later =>
          have hfewerBraces : ∀ b ∈ fewer, BraceAt offset (c :: cs) b :=
            fun b hb => hbraces b (hsubset hb)
          have hopens : (fewer.head? == some offset) = true → (more.head? == some offset) = true := by
            rw [beq_iff_eq, beq_iff_eq, head?_eq_some_iff_mem hfewer hfewerBraces,
              head?_eq_some_iff_mem hmore hbraces]
            exact fun hmem => hsubset hmem
          rw [firstInside_cons] at h ⊢
          by_cases hinside : mark = offset ∧ 0 < others.count true
          · rw [if_pos hinside]
            rfl
          · have hcount := hloops.count_le
            have houtside : ¬(mark = offset ∧ 0 < braces.count true) :=
              fun hin => hinside ⟨hin.1, by omega⟩
            rw [if_neg houtside, openLoopsAfter_count] at h
            rw [if_neg hinside, openLoopsAfter_count]
            -- Both walks drop the opener that stands here, so that the rest is a subset again.
            refine ih ?_ (openersAfter_pairwise hfewer offset c)
              (openersAfter_pairwise hmore offset c) ?_ (hloops.bracesAfter hopens c) h
            · intro b hb
              rw [mem_openersAfter_iff hfewer hfewerBraces] at hb
              exact (mem_openersAfter_iff hmore hbraces).2 ⟨hsubset hb.1, hb.2⟩
            · intro b hb
              rw [mem_openersAfter_iff hmore hbraces] at hb
              rcases braceAt_cons (hbraces b hb.1) with ⟨-, hhere⟩ | ⟨-, hahead⟩
              · exact absurd hhere hb.2
              · exact hahead

end LoopBody
end Neatness
