import Neatness.Proofs.OpenBlocks

/-!
# The walk over loop bodies

One walk over the text finds the first mark in a loop body, though loop bodies are defined one by
one.

* `InLoop` is the definition: a place behind the brace of a loop keyword and in front of the end of
  the block that opens there.
* `Walk` is what the walk carries along.  `Walk.Follows` says what it holds behind each part of the
  text: the marks and the openers that are still ahead, and the blocks that are open.  It is kept by
  each step (`Follows.step`), so it holds throughout (`follows_after`).
* `Follows.search_eq` is what the walk finds, and `search_start` in terms of `InLoop`.
-/

namespace Neatness
namespace LoopBody

/-! ## Loop bodies, one by one -/

/-- The brace of a loop keyword: the first one at an offset in the window behind the keyword. -/
def headerBrace? (text : List Char) (k : Text.Occurrence) : Option Nat :=
  (offsetsOf openBrace 0 text).find? fun b => decide (k.stop ≤ b ∧ b < k.stop + headerWindow)

/-- A place lies in the body of a loop. -/
def InLoop (text : List Char) (p : Nat) : Prop :=
  ∃ k ∈ keywords text, ∃ o ∈ headerBrace? text k, o < p ∧ p < closeOf text o

instance (text : List Char) (p : Nat) : Decidable (InLoop text p) :=
  inferInstanceAs (Decidable (∃ k ∈ keywords text, ∃ o ∈ headerBrace? text k,
    o < p ∧ p < closeOf text o))

theorem find?_congr {p q : Nat → Bool} {l : List Nat} (h : ∀ a ∈ l, p a = q a) :
    l.find? p = l.find? q := by
  induction l with
  | nil => rfl
  | cons a l ih =>
      rw [List.find?_cons, List.find?_cons, h a List.mem_cons_self,
        ih fun b hb => h b (List.mem_cons_of_mem a hb)]

/-- The first brace within a window is the first one in front of its end. -/
theorem find?_offsetsOf (window offset : Nat) (cs : List Char) :
    ((offsetsOf openBrace offset cs).find? fun b => decide (b < offset + window)) =
      braceWithin window offset cs := by
  induction cs generalizing window offset with
  | nil => rfl
  | cons c cs ih =>
      have hsize := c.utf8Size_pos
      rw [offsetsOf, braceWithin]
      by_cases hwindow : window = 0
      · rw [if_pos hwindow, List.find?_eq_none]
        intro b hb
        have hle : offset ≤ b := by
          split at hb
          · rcases List.mem_cons.1 hb with rfl | hb
            · exact Nat.le_refl _
            · have hbounds := offsetsOf_bounds hb
              omega
          · have hbounds := offsetsOf_bounds hb
            omega
        simp only [decide_eq_true_eq]
        omega
      rw [if_neg hwindow]
      by_cases hbrace : c = openBrace
      · rw [if_pos hbrace, if_pos hbrace, List.find?_cons_of_pos]
        simp only [decide_eq_true_eq]
        omega
      · rw [if_neg hbrace, if_neg hbrace, ← ih]
        -- What is left of the window ends at the same offset, or it is used up.
        apply find?_congr
        intro b hb
        have hbounds := offsetsOf_bounds hb
        simp only [decide_eq_decide]
        omega

theorem headerBrace?_eq {text : List Char} {k : Text.Occurrence} (hk : k ∈ keywords text) :
    headerBrace? text k = opener? k := by
  obtain ⟨front, htext, hstart⟩ := Text.exists_front_of_mem hk
  have hsplit : text = (front ++ k.here.take k.length) ++ k.rest := by
    rw [List.append_assoc, Text.Occurrence.rest, List.take_append_drop]
    exact htext
  have hstop : k.stop = Text.byteLength (front ++ k.here.take k.length) := by
    rw [Text.Occurrence.stop, hstart, Text.byteLength_append]
  have hbefore : ((offsetsOf openBrace 0 (front ++ k.here.take k.length)).find? fun b =>
      decide (k.stop ≤ b ∧ b < k.stop + headerWindow)) = none := by
    rw [List.find?_eq_none]
    intro b hb
    have hbounds := offsetsOf_bounds hb
    simp only [decide_eq_true_eq]
    omega
  have hbehind : ((offsetsOf openBrace k.stop k.rest).find? fun b =>
      decide (k.stop ≤ b ∧ b < k.stop + headerWindow)) =
        (offsetsOf openBrace k.stop k.rest).find? fun b => decide (b < k.stop + headerWindow) := by
    apply find?_congr
    intro b hb
    have hbounds := offsetsOf_bounds hb
    simp only [decide_eq_decide]
    omega
  rw [headerBrace?, opener?, ← find?_offsetsOf, ← hbehind]
  conv_lhs => rw [hsplit]
  rw [offsetsOf_append, List.find?_append, hbefore, Option.none_or, Nat.zero_add, ← hstop]

theorem mem_loopOpeners_iff {text : List Char} {o : Nat} :
    o ∈ loopOpeners text ↔ ∃ k ∈ keywords text, headerBrace? text k = some o := by
  rw [loopOpeners_eq, mem_eraseReps, List.mem_filterMap]
  constructor
  · rintro ⟨k, hk, hopener⟩
    exact ⟨k, hk, (headerBrace?_eq hk).trans hopener⟩
  · rintro ⟨k, hk, hbrace⟩
    exact ⟨k, hk, (headerBrace?_eq hk).symm.trans hbrace⟩

/-- A place that is no closing brace lies in a loop if and only if a loop body is open there. -/
theorem inLoop_iff {text front rest : List Char} {c : Char} (htext : text = front ++ c :: rest)
    (hc : c ≠ closeBrace) :
    InLoop text (Text.byteLength front) ↔ ∃ o ∈ openBlocks front, o ∈ loopOpeners text := by
  subst htext
  constructor
  · rintro ⟨k, hk, o, hbrace, hlt, hclose⟩
    have hopener : o ∈ loopOpeners (front ++ c :: rest) := mem_loopOpeners_iff.2 ⟨k, hk, hbrace⟩
    have hbraceAt := mem_offsetsOf_iff.2 (braceAt_of_mem_loopOpeners hopener)
    exact ⟨o, (mem_openBlocks_iff_lt_closeOf hc rest).2 ⟨hbraceAt, hlt, hclose⟩, hopener⟩
  · rintro ⟨o, hopen, hopener⟩
    obtain ⟨k, hk, hbrace⟩ := mem_loopOpeners_iff.1 hopener
    obtain ⟨-, hlt, hclose⟩ := (mem_openBlocks_iff_lt_closeOf hc rest).1 hopen
    exact ⟨k, hk, o, hbrace, hlt, hclose⟩

/-! ## Offsets ahead -/

/-- A character stands at `b`. -/
def PlaceOf (text : List Char) (b : Nat) : Prop :=
  ∃ front c rest, text = front ++ c :: rest ∧ b = Text.byteLength front

/-- The offsets that are not passed yet behind a part of the text. -/
def ahead (front : List Char) (offsets : List Nat) : List Nat :=
  offsets.filter fun b => decide (Text.byteLength front ≤ b)

section Ahead

variable {front rest : List Char} {c : Char} {b : Nat} {offsets : List Nat}

/-- A place that is not passed yet stands here or behind this character. -/
theorem place_cases (h : PlaceOf (front ++ c :: rest) b) (hle : Text.byteLength front ≤ b) :
    b = Text.byteLength front ∨ Text.byteLength front + c.utf8Size ≤ b := by
  obtain ⟨other, d, behind, hsplit, rfl⟩ := h
  rcases List.append_eq_append_iff.1 hsplit with ⟨more, rfl, hmore⟩ | ⟨more, rfl, hmore⟩
  · cases more with
    | nil => exact .inl (by simp)
    | cons e more =>
        obtain ⟨rfl, -⟩ := List.cons.inj hmore
        rw [Text.byteLength_append, Text.byteLength_cons]
        omega
  · rw [Text.byteLength_append] at hle ⊢
    omega

@[simp] theorem ahead_nil (offsets : List Nat) : ahead [] offsets = offsets :=
  List.filter_eq_self.2 fun b _ => decide_eq_true (Nat.zero_le b)

theorem mem_ahead_iff : b ∈ ahead front offsets ↔ b ∈ offsets ∧ Text.byteLength front ≤ b := by
  simp [ahead]

/-- Of ascending offsets, one that stands here comes first among those ahead. -/
theorem head?_ahead_iff (hascend : offsets.Pairwise (· < ·)) :
    (ahead front offsets).head? = some (Text.byteLength front) ↔
      Text.byteLength front ∈ offsets := by
  constructor
  · intro h
    exact (mem_ahead_iff.1 (List.mem_of_mem_head? h)).1
  · intro hmem
    have hfilter : (ahead front offsets).Pairwise (· < ·) := hascend.filter _
    cases hahead : ahead front offsets with
    | nil =>
        have hin := mem_ahead_iff.2 ⟨hmem, Nat.le_refl _⟩
        rw [hahead] at hin
        cases hin
    | cons a later =>
        have hin := mem_ahead_iff.2 ⟨hmem, Nat.le_refl _⟩
        have hle := (mem_ahead_iff.1 (hahead ▸ List.mem_cons_self : a ∈ ahead front offsets)).2
        rw [hahead] at hin hfilter
        rcases List.mem_cons.1 hin with heq | hin
        · rw [heq]
          rfl
        · have hlt := (List.pairwise_cons.1 hfilter).1 _ hin
          omega

/-- Behind a character, the offset that stood there is passed. -/
theorem ahead_concat (hascend : offsets.Pairwise (· < ·))
    (hplaces : ∀ b ∈ offsets, PlaceOf (front ++ c :: rest) b) :
    ahead (front ++ [c]) offsets =
      if (ahead front offsets).head? = some (Text.byteLength front) then (ahead front offsets).tail
      else ahead front offsets := by
  have hsize := c.utf8Size_pos
  have hlength := Text.byteLength_concat front c
  induction offsets with
  | nil => rfl
  | cons a offsets ih =>
      obtain ⟨hfirst, hlater⟩ := List.pairwise_cons.1 hascend
      obtain ⟨ha, hrest⟩ := List.forall_mem_cons.1 hplaces
      by_cases hpassed : Text.byteLength front ≤ a
      · have hsame : ahead (front ++ [c]) offsets = ahead front offsets := by
          apply List.filter_congr
          intro b hb
          have hab := hfirst b hb
          have hcases := place_cases (hrest b hb) (by omega)
          simp only [hlength, decide_eq_decide]
          omega
        have hahead : ahead front (a :: offsets) = a :: ahead front offsets :=
          List.filter_cons_of_pos (decide_eq_true hpassed)
        rw [hahead, List.head?_cons, List.tail_cons]
        rcases place_cases ha hpassed with rfl | hbehind
        · rw [if_pos rfl, ← hsame]
          exact List.filter_cons_of_neg (by simp only [hlength, decide_eq_true_eq]; omega)
        · have hother : ¬some a = some (Text.byteLength front) := by
            intro heq
            have hhere := Option.some.inj heq
            omega
          rw [if_neg hother, ← hsame]
          exact List.filter_cons_of_pos (decide_eq_true (by omega))
      · have hfront : ahead front (a :: offsets) = ahead front offsets :=
          List.filter_cons_of_neg (by simpa using hpassed)
        have hbehind : ahead (front ++ [c]) (a :: offsets) = ahead (front ++ [c]) offsets :=
          List.filter_cons_of_neg (by simp only [hlength, decide_eq_true_eq]; omega)
        rw [hfront, hbehind]
        exact ih hlater hrest

end Ahead

/-! ## The walk -/

/-- What the walk carries along. -/
structure Walk where
  marks : List Nat
  openers : List Nat
  /-- The open blocks, innermost first, each with the note whether it is a loop body. -/
  braces : List Bool
  openLoops : Nat
  /-- The offset of the next character. -/
  offset : Nat

namespace Walk

/-- The walk at the start of a text. -/
def start (marks : List Nat) (text : List Char) : Walk :=
  ⟨marks, loopOpeners text, [], 0, 0⟩

/-- The walk behind a character at which it does not stop. -/
def step (w : Walk) (c : Char) : Walk where
  marks := if w.marks.head? = some w.offset then w.marks.tail else w.marks
  openers := openersAfter w.openers w.offset c
  braces := bracesAfter (w.openers.head? == some w.offset) c w.braces
  openLoops := openLoopsAfter (w.openers.head? == some w.offset) c w.braces w.openLoops
  offset := w.offset + c.utf8Size

/-- The walk behind several characters. -/
def after (w : Walk) (cs : List Char) : Walk :=
  cs.foldl step w

/-- What the walk finds in the rest of the text. -/
def search (w : Walk) (cs : List Char) : Option Nat :=
  firstInside w.marks w.openers w.braces w.openLoops w.offset cs

/-- The walk stops at a mark while a loop body is open, and otherwise it takes a step.  To go on
without marks is to find nothing. -/
theorem search_cons (w : Walk) (c : Char) (cs : List Char) :
    w.search (c :: cs) =
      if w.marks.head? = some w.offset ∧ 0 < w.openLoops then some w.offset
      else (w.step c).search cs := by
  obtain ⟨marks, openers, braces, openLoops, offset⟩ := w
  cases marks with
  | nil => simp [search, step]
  | cons mark later =>
      rw [search, firstInside_cons]
      simp only [search, step, List.head?_cons, List.tail_cons, Option.some.injEq]

/-- As long as the walk has not stopped, it goes on with what it carries along. -/
theorem search_after {w : Walk} {front rest : List Char}
    (hahead : ∀ p, w.search (front ++ rest) = some p → w.offset + Text.byteLength front ≤ p) :
    w.search (front ++ rest) = (w.after front).search rest := by
  induction front generalizing w with
  | nil => rfl
  | cons c front ih =>
      have hsize := c.utf8Size_pos
      rw [List.cons_append, search_cons] at hahead ⊢
      rw [Text.byteLength_cons] at hahead
      by_cases hstop : w.marks.head? = some w.offset ∧ 0 < w.openLoops
      · rw [if_pos hstop] at hahead
        have hle := hahead w.offset rfl
        omega
      · rw [if_neg hstop] at hahead ⊢
        have hoffset : (w.step c).offset = w.offset + c.utf8Size := rfl
        refine ih fun p hp => ?_
        have hle := hahead p hp
        omega

/-- What the walk holds behind a part of the text. -/
structure Follows (text : List Char) (marks : List Nat) (front : List Char) (w : Walk) :
    Prop where
  marks : w.marks = ahead front marks
  openers : w.openers = ahead front (loopOpeners text)
  /-- The open blocks; those that have an opener are loop bodies. -/
  braces : w.braces = (openBlocks front).map fun o => decide (o ∈ loopOpeners text)
  openLoops : w.openLoops = w.braces.count true
  offset : w.offset = Text.byteLength front

/-- Marks ascend, and they are places of the text. -/
structure Marks (text : List Char) (marks : List Nat) : Prop where
  /-- Each one comes behind the one before. -/
  ascend : marks.Pairwise (· < ·)
  /-- They stand at characters. -/
  places : ∀ m ∈ marks, PlaceOf text m

theorem placeOf_of_mem_loopOpeners {text : List Char} {o : Nat} (h : o ∈ loopOpeners text) :
    PlaceOf text o := by
  obtain ⟨front, rest, htext, rfl⟩ := braceAt_of_mem_loopOpeners h
  exact ⟨front, openBrace, rest, htext, Nat.zero_add _⟩

/-- An opener that stands at a character is a brace. -/
theorem eq_openBrace_of_mem_loopOpeners {text front rest : List Char} {c : Char}
    (htext : text = front ++ c :: rest) (h : Text.byteLength front ∈ loopOpeners text) :
    c = openBrace := by
  obtain ⟨before, behind, hsplit, hlength⟩ := braceAt_of_mem_loopOpeners h
  rw [Nat.zero_add] at hlength
  exact (List.cons.inj (Text.append_inj_of_byteLength (htext.symm.trans hsplit) hlength).2).1

namespace Follows

variable {text front rest : List Char} {marks : List Nat} {c : Char} {w : Walk}

theorem start (text : List Char) (marks : List Nat) :
    Follows text marks [] (Walk.start marks text) := by
  refine ⟨?_, ?_, rfl, rfl, rfl⟩
  · rw [ahead_nil]
    rfl
  · rw [ahead_nil]
    rfl

/-- A closing brace never takes away a loop body that is not counted. -/
theorem openLoops_pos (h : Follows text marks front w) (hinner : w.braces.head? = some true) :
    0 < w.openLoops := by
  obtain ⟨outer, hbraces⟩ := List.head?_eq_some_iff.1 hinner
  rw [h.openLoops, hbraces, List.count_cons_self]
  omega

theorem openLoops_pos_iff (h : Follows text marks front w) :
    0 < w.openLoops ↔ ∃ o ∈ openBlocks front, o ∈ loopOpeners text := by
  rw [h.openLoops, h.braces, List.count_pos_iff, List.mem_map]
  simp only [decide_eq_true_eq]

theorem step (hmarks : Marks text marks) (htext : text = front ++ c :: rest)
    (h : Follows text marks front w) : Follows text marks (front ++ [c]) (w.step c) := by
  have hhead : (w.openers.head? == some w.offset) =
      decide (Text.byteLength front ∈ loopOpeners text) := by
    rw [Bool.eq_iff_iff, beq_iff_eq, decide_eq_true_eq, h.openers, h.offset]
    exact head?_ahead_iff (loopOpeners_pairwise text)
  refine ⟨?_, ?_, ?_, ?_, ?_⟩
  · rw [ahead_concat hmarks.ascend fun b hb => htext ▸ hmarks.places b hb, ← h.marks, ← h.offset]
    rfl
  · rw [ahead_concat (loopOpeners_pairwise text)
      fun b hb => htext ▸ placeOf_of_mem_loopOpeners hb, ← h.openers, ← h.offset]
    show openersAfter w.openers w.offset c = _
    rw [openersAfter]
    congr 1
    rw [eq_iff_iff, and_iff_right_iff_imp]
    intro hopener
    apply eq_openBrace_of_mem_loopOpeners htext
    rw [← head?_ahead_iff (loopOpeners_pairwise text), ← h.openers, ← h.offset]
    exact hopener
  · show bracesAfter _ c w.braces = _
    rw [hhead, h.braces, openBlocks_concat, bracesAfter, blocksAfter]
    split
    · rfl
    · split
      · exact List.map_tail.symm
      · rfl
  · show openLoopsAfter _ c w.braces w.openLoops = _
    rw [h.openLoops, openLoopsAfter_count]
    rfl
  · show w.offset + c.utf8Size = _
    rw [h.offset, Text.byteLength_concat]

/-- What the walk finds, if a condition tells of each mark whether a loop body is open in front of
it: the first mark that meets the condition. -/
theorem search_eq (hmarks : Marks text marks) (inside : Nat → Bool)
    (hinside : ∀ front c rest, text = front ++ c :: rest → Text.byteLength front ∈ marks →
      (inside (Text.byteLength front) = true ↔ ∃ o ∈ openBlocks front, o ∈ loopOpeners text))
    (htext : text = front ++ rest) (h : Follows text marks front w) :
    w.search rest = (ahead front marks).find? inside := by
  induction rest generalizing front w with
  | nil =>
      have hpassed : ahead front marks = [] := by
        rw [List.eq_nil_iff_forall_not_mem]
        intro m hm
        obtain ⟨hmem, hle⟩ := mem_ahead_iff.1 hm
        obtain ⟨before, c, behind, hsplit, rfl⟩ := hmarks.places m hmem
        have hsize := c.utf8Size_pos
        have hlength := congrArg Text.byteLength (htext.symm.trans hsplit)
        rw [Text.byteLength_append, Text.byteLength_append, Text.byteLength_cons,
          Text.byteLength_nil] at hlength
        omega
      rw [hpassed, search, firstInside_nil]
      rfl
  | cons c rest ih =>
      have hnext : text = (front ++ [c]) ++ rest := by
        rw [List.append_assoc]
        exact htext
      have hlater := ih hnext (h.step hmarks htext)
      have hahead := ahead_concat hmarks.ascend fun b hb => htext ▸ hmarks.places b hb
      have hopen := h.openLoops_pos_iff
      rw [search_cons, h.marks, h.offset, hlater, hahead]
      by_cases hmark : (ahead front marks).head? = some (Text.byteLength front)
      · have hhere := hinside front c rest htext ((head?_ahead_iff hmarks.ascend).1 hmark)
        obtain ⟨later, hmarksAhead⟩ := List.head?_eq_some_iff.1 hmark
        rw [if_pos hmark, hmarksAhead, List.tail_cons, List.head?_cons]
        by_cases hloop : 0 < w.openLoops
        · rw [if_pos ⟨rfl, hloop⟩, List.find?_cons_of_pos (hhere.2 (hopen.1 hloop))]
        · rw [if_neg fun hstop => hloop hstop.2,
            List.find?_cons_of_neg fun hin => hloop (hopen.2 (hhere.1 hin))]
      · rw [if_neg hmark, if_neg fun hstop => hmark hstop.1]

end Follows

/-- The walk holds behind each part of the text what it should. -/
theorem follows_after {text front rest : List Char} {marks : List Nat} (hmarks : Marks text marks)
    (htext : text = front ++ rest) :
    Follows text marks front ((Walk.start marks text).after front) := by
  induction front using List.reverseRecOn generalizing rest with
  | nil => exact .start text marks
  | append_singleton front c ih =>
      rw [List.append_assoc] at htext
      rw [after, List.foldl_append]
      exact (ih htext).step hmarks htext

/-- The walk finds the first mark that lies in a loop, if no mark is a closing brace. -/
theorem search_start {text : List Char} {marks : List Nat} (hmarks : Marks text marks)
    (hplain : ∀ front rest, text = front ++ closeBrace :: rest →
      Text.byteLength front ∉ marks) :
    (Walk.start marks text).search text = marks.find? fun m => decide (InLoop text m) := by
  have hinside : ∀ front c rest, text = front ++ c :: rest → Text.byteLength front ∈ marks →
      (decide (InLoop text (Text.byteLength front)) = true ↔
        ∃ o ∈ openBlocks front, o ∈ loopOpeners text) := by
    intro front c rest htext hmark
    rw [decide_eq_true_eq]
    exact inLoop_iff htext fun hc => hplain front rest (hc ▸ htext) hmark
  have hfind := (Follows.start text marks).search_eq hmarks (fun m => decide (InLoop text m))
    hinside (List.nil_append text).symm
  rwa [ahead_nil] at hfind

end Walk
end LoopBody
end Neatness
