import Neatness.Detection.EmptyHandler
import Neatness.Proofs.Search

/-!
# Idle `except` clauses

What an `except` clause reads when it is reported.  A clause does nothing when an idle statement
stands behind its colon, on the same line or at the start of the next one, where a comment may fill
the rest of its own line.  The words of the comment are looked at too, so a clause is also reported
when they read like an idle statement, whatever its body does.

* `Clause` is an `except` clause with what follows its colon.
* `IdleBody` says that the body of a clause does nothing, and `IdleWords` that the words of its
  comment look so; `idleBody_iff` says that either is found.
* `check_eq_some_iff` is the place that is reported: the least one of a handler that does nothing.
-/

namespace Neatness
namespace EmptyHandler

/-! ## How a clause reads -/

/-- A statement that does nothing starts the text: the whole word `pass`, or three dots. -/
def IsIdle (cs : List Char) : Prop :=
  (∃ rest, cs = ['p', 'a', 's', 's'] ++ rest ∧ Text.closesWord rest = true) ∨
    ∃ rest, cs = ['.', '.', '.'] ++ rest

/-- Spaces and tabs. -/
def Inline (cs : List Char) : Prop :=
  ∀ c ∈ cs, Text.isInline c = true

/-- The end of a line, in either spelling. -/
def IsLineBreak (cs : List Char) : Prop :=
  cs = ['\n'] ∨ cs = ['\r', '\n']

/-- What may stand between the colon and the end of its line: nothing, or a comment. -/
def IsComment (cs : List Char) : Prop :=
  cs = [] ∨ ∃ words, cs = '#' :: words ∧ '\n' ∉ words

/-- The body of a clause does nothing, told from what follows its colon. -/
inductive IdleBody : List Char → Prop
  /-- The statement stands on the line of the colon. -/
  | here {blanks body : List Char} (hblanks : Inline blanks) (hbody : IsIdle body) :
      IdleBody (blanks ++ body)
  /-- The statement is the first thing on the next line. -/
  | nextLine {blanks comment lineBreak indent body : List Char} (hblanks : Inline blanks)
      (hcomment : IsComment comment) (hbreak : IsLineBreak lineBreak) (hindent : Inline indent)
      (hbody : IsIdle body) :
      IdleBody (blanks ++ (comment ++ (lineBreak ++ (indent ++ body))))

/-- Somewhere in the comment behind the colon the words look like a statement that does nothing. -/
def IdleWords (cs : List Char) : Prop :=
  ∃ blanks words body, cs = blanks ++ '#' :: (words ++ body) ∧ Inline blanks ∧ '\n' ∉ words ∧
    IsIdle body

/-- An `except` clause starts here: the whole word, more of its line, a colon, and `body`. -/
def Clause (before : Option Char) (cs body : List Char) : Prop :=
  Text.opensWord before = true ∧
    ∃ head, cs = ['e', 'x', 'c', 'e', 'p', 't'] ++ (head ++ ':' :: body) ∧
      Text.closesWord (head ++ ':' :: body) = true ∧ ':' ∉ head ∧ '\n' ∉ head

/-! ## Blanks of a line -/

theorem inline_takeWhile (cs : List Char) : Inline (cs.takeWhile Text.isInline) :=
  List.all_eq_true.1 List.all_takeWhile

/-- Behind its blanks a text starts with something else. -/
theorem dropWhile_inline_append {blanks : List Char} (hblanks : Inline blanks) {c : Char}
    (hc : Text.isInline c = false) (rest : List Char) :
    (blanks ++ c :: rest).dropWhile Text.isInline = c :: rest :=
  Text.dropWhile_all_append hblanks hc rest

/-- A statement that does nothing starts with a letter or a dot. -/
theorem IsIdle.exists_cons {cs : List Char} (h : IsIdle cs) :
    ∃ c rest, cs = c :: rest ∧ (c = 'p' ∨ c = '.') := by
  rcases h with ⟨rest, rfl, -⟩ | ⟨rest, rfl⟩
  · exact ⟨'p', _, rfl, .inl rfl⟩
  · exact ⟨'.', _, rfl, .inr rfl⟩

theorem IsIdle.dropWhile_inline {blanks cs : List Char} (h : IsIdle cs) (hblanks : Inline blanks) :
    (blanks ++ cs).dropWhile Text.isInline = cs := by
  obtain ⟨c, rest, rfl, hc⟩ := h.exists_cons
  refine dropWhile_inline_append hblanks ?_ rest
  rcases hc with rfl | rfl <;> decide

/-! ## What the tests of a place find -/

theorem idle_iff {cs : List Char} : idle cs = true ↔ IsIdle cs := by
  have hword : ∀ word : List Char, word.isPrefixOf cs = true ↔ ∃ rest, cs = word ++ rest := by
    intro word
    rw [List.isPrefixOf_iff_prefix]
    exact ⟨fun ⟨rest, h⟩ => ⟨rest, h.symm⟩, fun ⟨rest, h⟩ => ⟨rest, h.symm⟩⟩
  unfold idle IsIdle
  rw [Bool.or_eq_true, Bool.and_eq_true, hword, hword]
  refine or_congr ⟨?_, ?_⟩ Iff.rfl
  · rintro ⟨⟨rest, rfl⟩, hcloses⟩
    exact ⟨rest, rfl, hcloses⟩
  · rintro ⟨rest, rfl, hcloses⟩
    exact ⟨⟨rest, rfl⟩, hcloses⟩

theorem idle_dropWhile_iff {cs : List Char} :
    idle (cs.dropWhile Text.isInline) = true ↔
      ∃ blanks body, cs = blanks ++ body ∧ Inline blanks ∧ IsIdle body := by
  rw [idle_iff]
  constructor
  · exact fun h => ⟨_, _, List.takeWhile_append_dropWhile.symm, inline_takeWhile cs, h⟩
  · rintro ⟨blanks, body, rfl, hblanks, hbody⟩
    rwa [hbody.dropWhile_inline hblanks]

theorem idleNextLine_iff {cs : List Char} :
    idleNextLine cs = true ↔ ∃ lineBreak indent body, cs = lineBreak ++ (indent ++ body) ∧
      IsLineBreak lineBreak ∧ Inline indent ∧ IsIdle body := by
  constructor
  · intro h
    unfold idleNextLine at h
    split at h
    · obtain ⟨indent, body, rfl, hindent, hbody⟩ := idle_dropWhile_iff.1 h
      exact ⟨['\n'], indent, body, rfl, .inl rfl, hindent, hbody⟩
    · obtain ⟨indent, body, rfl, hindent, hbody⟩ := idle_dropWhile_iff.1 h
      exact ⟨['\r', '\n'], indent, body, rfl, .inr rfl, hindent, hbody⟩
    · cases h
  · rintro ⟨lineBreak, indent, body, rfl, rfl | rfl, hindent, hbody⟩
    · exact idle_dropWhile_iff.2 ⟨indent, body, rfl, hindent, hbody⟩
    · exact idle_dropWhile_iff.2 ⟨indent, body, rfl, hindent, hbody⟩

theorem idleNextLine_cons_of_ne {c : Char} (hnl : c ≠ '\n') {cs : List Char}
    (h : idleNextLine (c :: cs) = true) : ∃ rest, cs = '\n' :: rest ∧ idleNextLine cs = true := by
  unfold idleNextLine at h
  split at h
  · next heq => exact absurd (List.cons.inj heq).1 hnl
  · next rest heq =>
    obtain ⟨-, rfl⟩ := List.cons.inj heq
    exact ⟨rest, rfl, h⟩
  · cases h

/-- An idle statement starts somewhere on the rest of this line. -/
def idleOnLine : List Char → Bool
  | [] => false
  | c :: cs => idle (c :: cs) || (c != '\n' && idleOnLine cs)

theorem idleOnLine_iff {cs : List Char} :
    idleOnLine cs = true ↔ ∃ words body, cs = words ++ body ∧ '\n' ∉ words ∧ IsIdle body := by
  induction cs with
  | nil =>
      refine ⟨fun h => absurd h (by decide), ?_⟩
      rintro ⟨words, body, heq, -, hbody⟩
      obtain ⟨c, rest, rfl, -⟩ := hbody.exists_cons
      simp at heq
  | cons c cs ih =>
      rw [idleOnLine, Bool.or_eq_true, Bool.and_eq_true, idle_iff, bne_iff_ne, ih]
      constructor
      · rintro (hidle | ⟨hnl, words, body, rfl, hwords, hbody⟩)
        · exact ⟨[], c :: cs, rfl, by simp, hidle⟩
        · exact ⟨c :: words, body, rfl, by simp [Ne.symm hnl, hwords], hbody⟩
      · rintro ⟨words, body, heq, hwords, hbody⟩
        cases words with
        | nil => exact .inl (heq ▸ hbody)
        | cons w words =>
            obtain ⟨rfl, rfl⟩ := List.cons.inj heq
            rw [List.mem_cons, not_or] at hwords
            exact .inr ⟨Ne.symm hwords.1, words, body, rfl, hwords.2, hbody⟩

/-- In a comment an idle statement is found among its words, or on the line behind it. -/
theorem idleBehindComment_eq (cs : List Char) :
    idleBehindComment cs = (idleOnLine cs || idleNextLine (cs.dropWhile (· != '\n'))) := by
  induction cs with
  | nil => rfl
  | cons c cs ih =>
      by_cases hnl : c = '\n'
      · subst hnl
        rw [List.dropWhile_cons_of_neg (by decide)]
        simp [idleBehindComment, idleOnLine, idleFollows]
      · rw [List.dropWhile_cons_of_pos (by simpa using hnl), idleBehindComment, idleOnLine, ih,
          bne_iff_ne.2 hnl, Bool.true_and, Bool.true_and, idleFollows, Bool.or_assoc, Bool.or_assoc]
        cases hnext : idleNextLine (c :: cs) with
        | false => rw [Bool.false_or]
        | true =>
            -- The comment ends with a carriage return, which is one of its words as well.
            obtain ⟨rest, rfl, hrest⟩ := idleNextLine_cons_of_ne hnl hnext
            rw [List.dropWhile_cons_of_neg (by decide), hrest]
            simp

/-- An idle statement starts the line behind this one, of which at most a comment is left. -/
def idleBehindLine (cs : List Char) : Bool :=
  match cs with
  | '#' :: words => idleNextLine (words.dropWhile (· != '\n'))
  | cs => idleNextLine cs

theorem idleBehindLine_of_ne {cs : List Char} (h : ∀ rest, cs ≠ '#' :: rest) :
    idleBehindLine cs = idleNextLine cs := by
  unfold idleBehindLine
  split
  · next rest => exact absurd rfl (h rest)
  · rfl

theorem idleBehindLine_iff {cs : List Char} :
    idleBehindLine cs = true ↔ ∃ comment lineBreak indent body,
      cs = comment ++ (lineBreak ++ (indent ++ body)) ∧ IsComment comment ∧
        IsLineBreak lineBreak ∧ Inline indent ∧ IsIdle body := by
  constructor
  · intro h
    unfold idleBehindLine at h
    split at h
    · next words =>
      obtain ⟨lineBreak, indent, body, hrest, hbreak, hindent, hbody⟩ := idleNextLine_iff.1 h
      refine ⟨'#' :: words.takeWhile (· != '\n'), lineBreak, indent, body, ?_, ?_, hbreak, hindent,
        hbody⟩
      · rw [← hrest, List.cons_append, List.takeWhile_append_dropWhile]
      · refine .inr ⟨_, rfl, fun hmem => ?_⟩
        have hclass := List.all_eq_true.1 (List.all_takeWhile (l := words)) '\n' hmem
        simp at hclass
    · obtain ⟨lineBreak, indent, body, rfl, hbreak, hindent, hbody⟩ := idleNextLine_iff.1 h
      exact ⟨[], lineBreak, indent, body, rfl, .inl rfl, hbreak, hindent, hbody⟩
  · rintro ⟨comment, lineBreak, indent, body, rfl, hcomment, hbreak, hindent, hbody⟩
    have hnext : idleNextLine (lineBreak ++ (indent ++ body)) = true :=
      idleNextLine_iff.2 ⟨lineBreak, indent, body, rfl, hbreak, hindent, hbody⟩
    rcases hcomment with rfl | ⟨words, rfl, hwords⟩
    · rw [List.nil_append, idleBehindLine_of_ne]
      · exact hnext
      · rcases hbreak with rfl | rfl <;> simp
    · show idleNextLine ((words ++ (lineBreak ++ (indent ++ body))).dropWhile (· != '\n')) = true
      rw [Text.dropWhile_ne_append hwords]
      rcases hbreak with rfl | rfl
      · exact hnext
      · exact hnext

/-! ## The body of a clause -/

/-- The end of a line, and a comment in front of it, is not a space or a tab. -/
theorem dropWhile_inline_comment {blanks comment lineBreak : List Char} (hblanks : Inline blanks)
    (hcomment : IsComment comment) (hbreak : IsLineBreak lineBreak) (rest : List Char) :
    (blanks ++ (comment ++ (lineBreak ++ rest))).dropWhile Text.isInline =
      comment ++ (lineBreak ++ rest) := by
  rcases hcomment with rfl | ⟨words, rfl, -⟩
  · rcases hbreak with rfl | rfl
    · exact dropWhile_inline_append hblanks (by decide) _
    · exact dropWhile_inline_append hblanks (by decide) _
  · exact dropWhile_inline_append hblanks (by decide) _

/-- Whether a body does nothing can be read off behind its blanks. -/
theorem idleBody_iff_behind_blanks {cs : List Char} :
    IdleBody cs ↔ (idle (cs.dropWhile Text.isInline) ||
      idleBehindLine (cs.dropWhile Text.isInline)) = true := by
  rw [Bool.or_eq_true, idle_dropWhile_iff]
  constructor
  · intro h
    cases h with
    | here hblanks hbody => exact .inl ⟨_, _, rfl, hblanks, hbody⟩
    | nextLine hblanks hcomment hbreak hindent hbody =>
        rw [dropWhile_inline_comment hblanks hcomment hbreak]
        exact .inr (idleBehindLine_iff.2 ⟨_, _, _, _, rfl, hcomment, hbreak, hindent, hbody⟩)
  · rintro (⟨blanks, body, rfl, hblanks, hbody⟩ | hline)
    · exact .here hblanks hbody
    · obtain ⟨comment, lineBreak, indent, body, hrest, hcomment, hbreak, hindent, hbody⟩ :=
        idleBehindLine_iff.1 hline
      rw [← List.takeWhile_append_dropWhile (p := Text.isInline) (l := cs), hrest]
      exact .nextLine (inline_takeWhile cs) hcomment hbreak hindent hbody

instance (cs : List Char) : Decidable (IdleBody cs) :=
  decidable_of_iff _ idleBody_iff_behind_blanks.symm

/-- Whether the words of a comment look idle can be read off behind the blanks in front of it. -/
theorem idleWords_iff_behind_blanks {cs : List Char} :
    IdleWords cs ↔
      ((cs.dropWhile Text.isInline).head? == some '#' &&
        idleOnLine (cs.dropWhile Text.isInline).tail) = true := by
  rw [Bool.and_eq_true, beq_iff_eq, idleOnLine_iff]
  constructor
  · rintro ⟨blanks, words, body, rfl, hblanks, hwords, hbody⟩
    rw [dropWhile_inline_append hblanks (by decide)]
    exact ⟨rfl, words, body, rfl, hwords, hbody⟩
  · rintro ⟨hhead, words, body, htail, hwords, hbody⟩
    obtain ⟨rest, hrest⟩ := List.head?_eq_some_iff.1 hhead
    rw [hrest, List.tail_cons] at htail
    refine ⟨cs.takeWhile Text.isInline, words, body, ?_, inline_takeWhile cs, hwords, hbody⟩
    rw [← htail, ← hrest, List.takeWhile_append_dropWhile]

instance (cs : List Char) : Decidable (IdleWords cs) :=
  decidable_of_iff _ idleWords_iff_behind_blanks.symm

/-- A body is found idle when it is, and when the words of its comment look so. -/
theorem idleBody_iff {cs : List Char} : idleBody cs = true ↔ IdleBody cs ∨ IdleWords cs := by
  rw [idleBody_iff_behind_blanks, idleWords_iff_behind_blanks, ← Bool.or_eq_true]
  refine Bool.eq_iff_iff.1 ?_
  unfold idleBody
  split
  · next words hdrop =>
    -- In front of a comment there is no statement on the line of the colon.
    have hidle : idle ('#' :: words) = false := rfl
    rw [idleBehindComment_eq, hdrop, hidle, idleBehindLine, Bool.or_comm]
    rfl
  · next hcomment =>
    have hhead : ((cs.dropWhile Text.isInline).head? == some '#') = false := by
      rw [beq_eq_false_iff_ne]
      intro hhead
      obtain ⟨rest, hrest⟩ := List.head?_eq_some_iff.1 hhead
      exact hcomment rest hrest
    rw [hhead, Bool.false_and, Bool.or_false, idleBehindLine_of_ne hcomment, idleFollows]

/-! ## The clause -/

/-- What follows the colon of an `except` clause that starts here. -/
def clauseBody? (before : Option Char) (cs : List Char) : Option (List Char) :=
  match afterWord? ['e', 'x', 'c', 'e', 'p', 't'] before cs with
  | some cs =>
    match cs.dropWhile (fun c => c != ':' && c != '\n') with
    | ':' :: body => some body
    | _ => none
  | none => none

theorem exceptAt_eq_any (before : Option Char) (cs : List Char) :
    exceptAt before cs = (clauseBody? before cs).any idleBody := by
  unfold exceptAt clauseBody?
  cases afterWord? ['e', 'x', 'c', 'e', 'p', 't'] before cs with
  | none => rfl
  | some rest =>
      simp only
      cases rest.dropWhile (fun c => c != ':' && c != '\n') with
      | nil => rfl
      | cons c body =>
          by_cases hc : c = ':'
          · subst hc
            rfl
          · simp [hc]

theorem afterWord?_eq_some_iff {word : List Char} {before : Option Char} {cs rest : List Char} :
    afterWord? word before cs = some rest ↔
      Text.opensWord before = true ∧ cs = word ++ rest ∧ Text.closesWord rest = true := by
  unfold afterWord?
  rw [Option.ite_none_right_eq_some, Bool.and_eq_true, Bool.and_eq_true,
    List.isPrefixOf_iff_prefix]
  constructor
  · rintro ⟨⟨⟨hopens, tail, rfl⟩, hcloses⟩, heq⟩
    rw [List.drop_left] at hcloses heq
    obtain rfl := Option.some.inj heq
    exact ⟨hopens, rfl, hcloses⟩
  · rintro ⟨hopens, rfl, hcloses⟩
    rw [List.drop_left]
    exact ⟨⟨⟨hopens, List.prefix_append word rest⟩, hcloses⟩, rfl⟩

/-- A clause has one body. -/
theorem clauseBody?_eq_some_iff {before : Option Char} {cs body : List Char} :
    clauseBody? before cs = some body ↔ Clause before cs body := by
  unfold clauseBody?
  constructor
  · intro h
    split at h
    · next rest hword =>
      obtain ⟨hopens, rfl, hcloses⟩ := afterWord?_eq_some_iff.1 hword
      split at h
      · next tail hdrop =>
        obtain rfl := Option.some.inj h
        have hrest : rest = rest.takeWhile (fun c => c != ':' && c != '\n') ++ ':' :: tail := by
          rw [← hdrop, List.takeWhile_append_dropWhile]
        have hclass := List.all_eq_true.1
          (List.all_takeWhile (p := fun c => c != ':' && c != '\n') (l := rest))
        refine ⟨hopens, _, congrArg _ hrest, hrest ▸ hcloses, ?_, ?_⟩
        · exact fun hmem => absurd (hclass ':' hmem) (by decide)
        · exact fun hmem => absurd (hclass '\n' hmem) (by decide)
      · cases h
    · cases h
  · rintro ⟨hopens, head, rfl, hcloses, hcolon, hnl⟩
    have hclass : ∀ c ∈ head, (c != ':' && c != '\n') = true := by
      intro c hc
      rw [Bool.and_eq_true, bne_iff_ne, bne_iff_ne]
      exact ⟨fun heq => hcolon (heq ▸ hc), fun heq => hnl (heq ▸ hc)⟩
    rw [afterWord?_eq_some_iff.2 ⟨hopens, rfl, hcloses⟩]
    simp only
    rw [List.dropWhile_append_of_pos hclass]
    rfl

/-- A clause is found where it is idle, or where the words of its comment look so. -/
theorem exceptAt_iff {before : Option Char} {cs : List Char} :
    exceptAt before cs = true ↔
      ∃ body, Clause before cs body ∧ (IdleBody body ∨ IdleWords body) := by
  rw [exceptAt_eq_any, Option.any_eq_true]
  simp only [clauseBody?_eq_some_iff, idleBody_iff]

/-! ## What is reported -/

/-- A handler that counts as empty starts here: a `catch` clause without content, or an `except`
clause that is idle or seems so. -/
def StartsHandler (before : Option Char) (cs : List Char) : Prop :=
  catchAt before cs = true ∨ ∃ body, Clause before cs body ∧ (IdleBody body ∨ IdleWords body)

theorem startsHandler_iff {before : Option Char} {cs : List Char} :
    (catchAt before cs || exceptAt before cs) = true ↔ StartsHandler before cs := by
  rw [Bool.or_eq_true, exceptAt_iff, StartsHandler]

/-- No `catch` clause starts where an `except` clause does. -/
theorem Clause.catchAt_eq_false {before : Option Char} {cs body : List Char}
    (h : Clause before cs body) : catchAt before cs = false := by
  obtain ⟨-, head, rfl, -⟩ := h
  have hword : afterWord? ['c', 'a', 't', 'c', 'h'] before
      (['e', 'x', 'c', 'e', 'p', 't'] ++ (head ++ ':' :: body)) = none := by
    rw [Option.eq_none_iff_forall_ne_some]
    intro rest hrest
    have heq := (afterWord?_eq_some_iff.1 hrest).2.1
    cases heq
  rw [catchAt, hword]

/-- A place comes before what is found further on. -/
theorem earlier_of_le {place : Nat} {found : Option Nat}
    (h : ∀ other, found = some other → place ≤ other) :
    earlier (some place) found = some place ∧ earlier found (some place) = some place := by
  cases found with
  | none => exact ⟨rfl, rfl⟩
  | some other =>
      rw [earlier, earlier, Nat.min_eq_left (h other rfl), Nat.min_eq_right (h other rfl)]
      exact ⟨rfl, rfl⟩

/-- Looking for two things and taking the earlier one is looking for either. -/
theorem earlier_firstFrom (p q : Text.Probe) (before : Option Char) (offset : Nat)
    (cs : List Char) :
    earlier (Text.firstFrom p before offset cs) (Text.firstFrom q before offset cs) =
      Text.firstFrom (fun before cs => p before cs || q before cs) before offset cs := by
  have hhere : ∀ probe : Text.Probe, probe before cs = true →
      Text.firstFrom probe before offset cs = some offset := by
    intro probe hprobe
    cases cs <;> simp [Text.firstFrom, hprobe]
  by_cases hp : p before cs = true
  · rw [hhere p hp, hhere (fun before cs => p before cs || q before cs) (by simp [hp])]
    exact (earlier_of_le fun other => Text.le_of_firstFrom).1
  by_cases hq : q before cs = true
  · rw [hhere q hq, hhere (fun before cs => p before cs || q before cs) (by simp [hq])]
    exact (earlier_of_le fun other => Text.le_of_firstFrom).2
  -- Neither stands here, so both are looked for behind the next character.
  cases cs with
  | nil => simp [Text.firstFrom, hp, hq, earlier]
  | cons c cs =>
      simpa [Text.firstFrom, hp, hq] using
        earlier_firstFrom p q (some c) (offset + c.utf8Size) cs

/-- The least place of a handler is reported. -/
theorem check_eq_some_iff {text : List Char} {d : Detection} :
    check true text = some d ↔ ∃ front rest, text = front ++ rest ∧
      d = ⟨.emptyErrorHandler, Text.byteLength front, message⟩ ∧
      StartsHandler front.getLast? rest ∧
      ∀ other more, text = other ++ more → StartsHandler other.getLast? more →
        Text.byteLength front ≤ Text.byteLength other := by
  have hcheck : check true text =
      (Text.first? (fun before cs => catchAt before cs || exceptAt before cs) text).map
        fun offset => ⟨.emptyErrorHandler, offset, message⟩ := by
    rw [Text.first?, ← earlier_firstFrom]
    rfl
  rw [hcheck, Option.map_eq_some_iff]
  simp only [Text.first?_eq_some_iff, Text.Probe.Passes, startsHandler_iff]
  constructor
  · rintro ⟨place, ⟨⟨front, rest, htext, rfl, hstarts⟩, hleast⟩, rfl⟩
    exact ⟨front, rest, htext, rfl, hstarts, fun other more hother hmore =>
      hleast _ ⟨other, more, hother, rfl, hmore⟩⟩
  · rintro ⟨front, rest, htext, rfl, hstarts, hleast⟩
    refine ⟨_, ⟨⟨front, rest, htext, rfl, hstarts⟩, ?_⟩, rfl⟩
    rintro place ⟨other, more, hother, rfl, hmore⟩
    exact hleast other more hother hmore

/-- The least place of a handler is reported, and an `except` clause that is reported reads as one
whose body does nothing, unless there are words in its comment that look like such a body. -/
theorem check_reads_clause (text : List Char) (d : Detection) :
    (check true text = some d ↔ ∃ front rest, text = front ++ rest ∧
      d = ⟨.emptyErrorHandler, Text.byteLength front, message⟩ ∧
      StartsHandler front.getLast? rest ∧
      ∀ other more, text = other ++ more → StartsHandler other.getLast? more →
        Text.byteLength front ≤ Text.byteLength other) ∧
    (check true text = some d → ∀ front rest body, text = front ++ rest →
      d.offset = Text.byteLength front → Clause front.getLast? rest body →
        ¬IdleWords body → IdleBody body) := by
  refine ⟨check_eq_some_iff, fun hcheck front rest body htext hoffset hclause hwords => ?_⟩
  obtain ⟨found, more, hfound, rfl, hstarts, -⟩ := check_eq_some_iff.1 hcheck
  obtain ⟨rfl, rfl⟩ := Text.append_inj_of_byteLength (hfound.symm.trans htext) hoffset
  rcases hstarts with hcatch | ⟨body', hclause', hidle⟩
  · rw [hclause.catchAt_eq_false] at hcatch
    cases hcatch
  · have hbody : some body = some body' :=
      (clauseBody?_eq_some_iff.2 hclause).symm.trans (clauseBody?_eq_some_iff.2 hclause')
    obtain rfl := Option.some.inj hbody
    exact hidle.resolve_right hwords

/-- A clause with a comment in front of its body, which is on the next line. -/
theorem check_reads_clause_commented :
    check true "x = 1\nexcept E:  # ignored\r\n\tpass".toList =
        some ⟨.emptyErrorHandler, 6, message⟩ ∧
      ¬IdleWords "  # ignored\r\n\tpass".toList ∧ IdleBody "  # ignored\r\n\tpass".toList := by
  have hcheck : check true "x = 1\nexcept E:  # ignored\r\n\tpass".toList =
      some ⟨.emptyErrorHandler, 6, message⟩ := by decide +kernel
  have hwords : ¬IdleWords "  # ignored\r\n\tpass".toList := by decide +kernel
  refine ⟨hcheck, hwords, (check_reads_clause _ _).2 hcheck "x = 1\n".toList
    "except E:  # ignored\r\n\tpass".toList _ rfl rfl ?_ hwords⟩
  exact clauseBody?_eq_some_iff.1 (by decide +kernel)

/-- A clause that handles its error is reported for a word of its comment. -/
theorem idle_words_reported :
    check true "except E:  # pass on\n    log(e)\n".toList =
        some ⟨.emptyErrorHandler, 0, message⟩ ∧
      ∀ body, Clause none "except E:  # pass on\n    log(e)\n".toList body → ¬IdleBody body := by
  refine ⟨by decide +kernel, fun body hclause => ?_⟩
  have hbody : clauseBody? none "except E:  # pass on\n    log(e)\n".toList =
      some "  # pass on\n    log(e)\n".toList := by decide +kernel
  obtain rfl := Option.some.inj (hbody.symm.trans (clauseBody?_eq_some_iff.2 hclause))
  decide +kernel

end EmptyHandler
end Neatness
