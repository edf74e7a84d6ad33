import Neatness.Detection.DeepIndentation
import Neatness.Detection.EmptyHandler
import Neatness.Proofs.CarriageReturns
import Neatness.Proofs.HeaderNames
import Neatness.Proofs.Markers
import Neatness.Proofs.QuotedPaths

/-!
# Tests of a place under other line endings

The rules that look for one place, and the one on the header, detect the same with a carriage return
in front of every newline.  The one exception is a line of nothing but blanks: its carriage return is
one more blank, and `DeepIndentation.AlmostDeep` is a text with a line that becomes too deep in this
way.
-/

namespace Neatness

/-- A detection, in the text with carriage returns. -/
def Detection.withReturns (text : List Char) (d : Detection) : Detection :=
  { d with offset := Text.shift text d.offset }

/-! ## Quoted paths -/

namespace AbsolutePath

theorem startsWithDrive_withReturns (cs : List Char) :
    startsWithDrive (Text.withReturns cs) = startsWithDrive cs := by
  rw [Bool.eq_iff_iff, startsWithDrive_iff, startsWithDrive_iff]
  have hline : ∀ letter slash : Char, letter.isAlpha = true → (slash = '/' ∨ slash = '\\') →
      Text.OnOneLine [letter, ':', slash] := by
    rintro letter slash hletter hslash
    have hnl : '\n' ≠ letter := by rintro rfl; exact absurd hletter (by decide)
    have hcr : '\r' ≠ letter := by rintro rfl; exact absurd hletter (by decide)
    rcases hslash with rfl | rfl <;> simp [Text.OnOneLine, hnl, hcr]
  constructor
  · rintro ⟨letter, slash, hletter, hslash, hdrive⟩
    exact ⟨letter, slash, hletter, hslash,
      (Text.prefix_withReturns_iff (hline letter slash hletter hslash)).1 hdrive⟩
  · rintro ⟨letter, slash, hletter, hslash, hdrive⟩
    exact ⟨letter, slash, hletter, hslash,
      (Text.prefix_withReturns_iff (hline letter slash hletter hslash)).2 hdrive⟩

theorem startsWithFolder_withReturns (cs : List Char) :
    startsWithFolder (Text.withReturns cs) = startsWithFolder cs := by
  have hclass : Text.isWordChar '\r' = Text.isWordChar '\n' := by decide
  by_cases hslash : cs.head? = some '/'
  · obtain ⟨rest, rfl⟩ := List.head?_eq_some_iff.1 hslash
    rw [Text.withReturns_cons (by decide), startsWithFolder_cons, startsWithFolder_cons,
      Text.takeWhile_withReturns hclass, Text.dropWhile_withReturns hclass,
      Text.isEmpty_withReturns, Text.head?_withReturns_beq (by decide) (by decide)]
  · have hreturns : (Text.withReturns cs).head? ≠ some '/' := by
      rwa [Ne, Text.head?_withReturns_eq_some_iff (by decide) (by decide)]
    have hother : ∀ ds : List Char, ds.head? ≠ some '/' → startsWithFolder ds = false := by
      intro ds hds
      unfold startsWithFolder
      split
      · exact absurd rfl hds
      · rfl
    rw [hother cs hslash, hother _ hreturns]

theorem opensAt_withReturns (before : Option Char) (cs : List Char) :
    opensAt before (Text.withReturns cs) = opensAt before cs := by
  cases cs with
  | nil => rfl
  | cons c cs =>
      by_cases hc : c = '\n'
      · subst hc
        rfl
      · rw [Text.withReturns_cons hc, opensAt, opensAt, startsWithDrive_withReturns,
          startsWithFolder_withReturns]

theorem check_withReturns (text : List Char) :
    check (Text.withReturns text) = (check text).map (Detection.withReturns text) := by
  unfold check
  rw [Text.first?_withReturns (fun _ => rfl) fun front cs _ _ => opensAt_withReturns _ cs,
    Option.map_map, Option.map_map]
  rfl

end AbsolutePath

/-! ## Marked comments -/

namespace UnresolvedMarker

theorem onOneLine_of_toUpper {word spelled : List Char} (h : Text.OnOneLine word)
    (hspelled : spelled.map Char.toUpper = word) : Text.OnOneLine spelled := by
  subst hspelled
  exact ⟨fun hmem => h.1 (List.mem_map.2 ⟨'\n', hmem, by decide⟩),
    fun hmem => h.2 (List.mem_map.2 ⟨'\r', hmem, by decide⟩)⟩

theorem isWord_withReturns {word : List Char} (h : Text.OnOneLine word) (cs : List Char) :
    isWord word (Text.withReturns cs) = isWord word cs := by
  rw [Bool.eq_iff_iff, isWord_iff, isWord_iff]
  constructor
  · rintro ⟨spelled, rest, hcs, hspelled, hcloses⟩
    have hline := onOneLine_of_toUpper h hspelled
    obtain ⟨rest', rfl⟩ := (Text.prefix_withReturns_iff hline).1 ⟨rest, hcs.symm⟩
    rw [Text.withReturns_append, hline.withReturns_eq, List.append_cancel_left_eq] at hcs
    rw [← hcs, Text.closesWord_withReturns] at hcloses
    exact ⟨spelled, rest', rfl, hspelled, hcloses⟩
  · rintro ⟨spelled, rest, rfl, hspelled, hcloses⟩
    have hline := onOneLine_of_toUpper h hspelled
    rw [Text.withReturns_append, hline.withReturns_eq]
    exact ⟨spelled, _, rfl, hspelled, by rwa [Text.closesWord_withReturns]⟩

theorem markerFollows_withReturns (cs : List Char) :
    markerFollows (Text.withReturns cs) = markerFollows cs := by
  unfold markerFollows
  simp only
  rw [Text.dropWhile_withReturns (by decide), isWord_withReturns (by decide),
    isWord_withReturns (by decide), isWord_withReturns (by decide)]

theorem opensComment_withReturns (cs : List Char) :
    opensComment (Text.withReturns cs) = opensComment cs := by
  fun_cases opensComment cs with
  | case1 cs => exact markerFollows_withReturns cs
  | case2 cs => exact markerFollows_withReturns cs
  | case3 cs => exact markerFollows_withReturns cs
  | case4 cs =>
      show markerFollows ((Text.withReturns cs).dropWhile (· == '*')) = _
      rw [Text.dropWhile_withReturns (by decide), markerFollows_withReturns]
  | case5 cs hslashes hhash hangle hstar =>
      -- A comment of the text with carriage returns opens in the text itself.
      have hword : ∀ word : List Char, Text.OnOneLine word → ∀ rest,
          Text.withReturns cs = word ++ rest → ∃ rest', cs = word ++ rest' := by
        intro word hline rest hcs
        obtain ⟨rest', hrest⟩ := (Text.prefix_withReturns_iff hline).1 ⟨rest, hcs.symm⟩
        exact ⟨rest', hrest.symm⟩
      unfold opensComment
      split
      · rename_i rest hcs
        obtain ⟨rest', hrest⟩ := hword ['/', '/'] (by decide) rest hcs
        exact absurd hrest (hslashes rest')
      · rename_i rest hcs
        obtain ⟨rest', hrest⟩ := hword ['#'] (by decide) rest hcs
        exact absurd hrest (hhash rest')
      · rename_i rest hcs
        obtain ⟨rest', hrest⟩ := hword ['<', '!', '-', '-'] (by decide) rest hcs
        exact absurd hrest (hangle rest')
      · rename_i rest hcs
        obtain ⟨rest', hrest⟩ := hword ['/', '*'] (by decide) rest hcs
        exact absurd hrest (hstar rest')
      · rfl

theorem opensStarLine_withReturns (cs : List Char) :
    opensStarLine (Text.withReturns cs) = opensStarLine cs := by
  unfold opensStarLine
  rw [Text.dropWhile_withReturns (by decide)]
  rcases Text.starts_withReturns (c := '*') (by decide) (by decide)
    (cs.dropWhile Text.isInline) with ⟨rest, hrest, hreturns⟩ | ⟨hrest, hreturns⟩
  · rw [hreturns, hrest]
    exact markerFollows_withReturns rest
  · split
    · rename_i hstar
      exact absurd hstar (hreturns _)
    · rfl

theorem check_withReturns (text : List Char) :
    check (Text.withReturns text) = (check text).map (Detection.withReturns text) := by
  have hsame : ∀ before cs, opensAt before (Text.withReturns cs) = opensAt before cs := by
    intro before cs
    rw [opensAt, opensAt, opensComment_withReturns, opensStarLine_withReturns]
  unfold check
  rw [Text.first?_withReturns (fun _ => rfl) fun front cs _ _ => hsame _ cs, Option.map_map,
    Option.map_map]
  rfl

end UnresolvedMarker

/-! ## Empty handlers -/

namespace EmptyHandler

theorem afterWord?_withReturns {word : List Char} (h : Text.OnOneLine word)
    (before : Option Char) (cs : List Char) :
    afterWord? word before (Text.withReturns cs) =
      (afterWord? word before cs).map Text.withReturns := by
  unfold afterWord?
  rw [Text.isPrefixOf_withReturns h]
  by_cases hstands : word.isPrefixOf cs = true
  · rw [Text.drop_length_withReturns h (List.isPrefixOf_iff_prefix.1 hstands),
      Text.closesWord_withReturns]
    split <;> rfl
  · simp [hstands]

theorem emptyBlock_withReturns (cs : List Char) :
    emptyBlock (Text.withReturns cs) = emptyBlock cs := by
  have hbrace : ∀ ds : List Char, (∀ rest, ds.dropWhile Text.isBlank ≠ LoopBody.openBrace :: rest) →
      emptyBlock ds = false := by
    intro ds hds
    unfold emptyBlock
    split
    · rfl
    · rename_i d rest hdrop
      have hd : d ≠ LoopBody.openBrace := by rintro rfl; exact hds rest hdrop
      simp [hd]
  rcases Text.starts_withReturns (c := LoopBody.openBrace) (by decide) (by decide)
    (cs.dropWhile Text.isBlank) with ⟨rest, hrest, hreturns⟩ | ⟨hrest, hreturns⟩
  · rw [← Text.dropWhile_withReturns (by decide)] at hreturns
    unfold emptyBlock
    rw [hrest, hreturns]
    simp only
    rw [Text.dropWhile_withReturns (by decide),
      Text.head?_withReturns_beq (by decide) (by decide)]
  · rw [hbrace cs hrest, hbrace (Text.withReturns cs)]
    rwa [Text.dropWhile_withReturns (by decide)]

/-- What follows the first character of a class that holds neither character of a line end. -/
theorem drop_one_withReturns {p : Char → Bool} (hcr : p '\r' = true) (hnl : p '\n' = true)
    (cs : List Char) :
    ((Text.withReturns cs).dropWhile p).drop 1 = Text.withReturns ((cs.dropWhile p).drop 1) := by
  rw [Text.dropWhile_withReturns (hcr.trans hnl.symm)]
  cases hdrop : cs.dropWhile p with
  | nil => rfl
  | cons c rest =>
      have hc := List.head?_dropWhile_not p cs
      rw [hdrop] at hc
      simp only [List.head?_cons] at hc
      have hne : c ≠ '\n' := by rintro rfl; simp [hnl] at hc
      rw [Text.withReturns_cons hne]
      rfl

theorem emptyBody_withReturns (cs : List Char) :
    emptyBody (Text.withReturns cs) = emptyBody cs := by
  unfold emptyBody
  rw [Text.dropWhile_withReturns (by decide)]
  rcases Text.starts_withReturns (c := '(') (by decide) (by decide)
    (cs.dropWhile Text.isBlank) with ⟨rest, hrest, hreturns⟩ | ⟨hrest, hreturns⟩
  · rw [hreturns, hrest]
    simp only
    rw [drop_one_withReturns (by decide) (by decide), emptyBlock_withReturns]
  · split
    · rename_i hparen
      exact absurd hparen (hreturns _)
    · exact emptyBlock_withReturns _

theorem catchAt_withReturns (before : Option Char) (cs : List Char) :
    catchAt before (Text.withReturns cs) = catchAt before cs := by
  unfold catchAt
  rw [afterWord?_withReturns (by decide)]
  cases afterWord? ['c', 'a', 't', 'c', 'h'] before cs with
  | none => rfl
  | some rest => exact emptyBody_withReturns rest

theorem idle_withReturns (cs : List Char) : idle (Text.withReturns cs) = idle cs := by
  unfold idle
  rw [Text.isPrefixOf_withReturns (by decide), Text.isPrefixOf_withReturns (by decide)]
  by_cases hpass : ['p', 'a', 's', 's'].isPrefixOf cs = true
  · rw [show 4 = ['p', 'a', 's', 's'].length from rfl,
      Text.drop_length_withReturns (by decide) (List.isPrefixOf_iff_prefix.1 hpass),
      Text.closesWord_withReturns]
  · simp [hpass]

/-- The two spellings of a line end are the ones that an idle next line may follow. -/
theorem idleFollows_withReturns {cs : List Char} (h : '\r' ∉ cs) :
    idleFollows (Text.withReturns cs) = idleFollows cs := by
  unfold idleFollows
  rw [idle_withReturns]
  congr 1
  cases cs with
  | nil => rfl
  | cons c cs =>
      by_cases hc : c = '\n'
      · subst hc
        rw [Text.withReturns_newline, idleNextLine, idleNextLine,
          Text.dropWhile_withReturns (by decide), idle_withReturns]
      · have hcr : c ≠ '\r' := fun heq => h (heq ▸ List.mem_cons_self)
        have hother : ∀ ds, idleNextLine (c :: ds) = false := by
          intro ds
          unfold idleNextLine
          split
          · rename_i heq
            exact absurd (List.cons.inj heq).1 hc
          · rename_i heq
            exact absurd (List.cons.inj heq).1 hcr
          · rfl
        rw [Text.withReturns_cons hc, hother, hother]

theorem idleBehindComment_withReturns {cs : List Char} (h : '\r' ∉ cs) :
    idleBehindComment (Text.withReturns cs) = idleBehindComment cs := by
  induction cs with
  | nil => rfl
  | cons c cs ih =>
      have hhere := idleFollows_withReturns h
      by_cases hc : c = '\n'
      · -- The comment ends at the newline; the carriage return adds no place behind it.
        subst hc
        have hnewline : idleFollows ('\n' :: Text.withReturns cs) =
            idleFollows ('\r' :: '\n' :: Text.withReturns cs) := rfl
        rw [Text.withReturns_newline] at hhere ⊢
        simp [idleBehindComment, hnewline, hhere]
      · rw [Text.withReturns_cons hc] at hhere ⊢
        rw [idleBehindComment, idleBehindComment, hhere,
          ih fun hmem => h (List.mem_cons_of_mem c hmem)]

theorem idleBody_withReturns {cs : List Char} (h : '\r' ∉ cs) :
    idleBody (Text.withReturns cs) = idleBody cs := by
  have hdrop : '\r' ∉ cs.dropWhile Text.isInline :=
    fun hmem => h ((List.dropWhile_suffix _).subset hmem)
  unfold idleBody
  rw [Text.dropWhile_withReturns (by decide)]
  rcases Text.starts_withReturns (c := '#') (by decide) (by decide)
    (cs.dropWhile Text.isInline) with ⟨rest, hrest, hreturns⟩ | ⟨hrest, hreturns⟩
  · rw [hrest] at hdrop
    rw [hreturns, hrest]
    exact idleBehindComment_withReturns fun hmem => hdrop (List.mem_cons_of_mem _ hmem)
  · split
    · rename_i hhash
      exact absurd hhash (hreturns _)
    · exact idleFollows_withReturns hdrop

/-- The body of an `except` clause behind the first colon of the line. -/
def idleClause (cs : List Char) : Bool :=
  match cs.dropWhile (fun c => c != ':' && c != '\n') with
  | ':' :: cs => idleBody cs
  | _ => false

theorem exceptAt_eq (before : Option Char) (cs : List Char) :
    exceptAt before cs =
      ((afterWord? ['e', 'x', 'c', 'e', 'p', 't'] before cs).map idleClause).getD false := by
  unfold exceptAt
  cases afterWord? ['e', 'x', 'c', 'e', 'p', 't'] before cs <;> rfl

theorem idleClause_withReturns {cs : List Char} (h : '\r' ∉ cs) :
    idleClause (Text.withReturns cs) = idleClause cs := by
  induction cs with
  | nil => rfl
  | cons c cs ih =>
      have hlater : '\r' ∉ cs := fun hmem => h (List.mem_cons_of_mem c hmem)
      by_cases hnl : c = '\n'
      · subst hnl
        rfl
      by_cases hcolon : c = ':'
      · subst hcolon
        exact idleBody_withReturns hlater
      · have hstep : ∀ ds, idleClause (c :: ds) = idleClause ds := by
          intro ds
          unfold idleClause
          rw [List.dropWhile_cons_of_pos (by simp [hnl, hcolon])]
        rw [Text.withReturns_cons hnl, hstep, hstep, ih hlater]

theorem exceptAt_withReturns (before : Option Char) {cs : List Char} (h : '\r' ∉ cs) :
    exceptAt before (Text.withReturns cs) = exceptAt before cs := by
  rw [exceptAt_eq, exceptAt_eq, afterWord?_withReturns (by decide)]
  cases hafter : afterWord? ['e', 'x', 'c', 'e', 'p', 't'] before cs with
  | none => rfl
  | some rest =>
      simp only [afterWord?, Option.ite_none_right_eq_some, Option.some.injEq] at hafter
      have hrest : '\r' ∉ rest := fun hmem => h (List.mem_of_mem_drop (hafter.2 ▸ hmem))
      exact idleClause_withReturns hrest

theorem earlier_map {f : Nat → Nat} (hf : ∀ a b, a ≤ b → f a ≤ f b) (a b : Option Nat) :
    earlier (a.map f) (b.map f) = (earlier a b).map f := by
  cases a with
  | none => cases b <;> rfl
  | some a =>
      cases b with
      | none => rfl
      | some b =>
          simp only [Option.map_some, earlier, Option.some.injEq]
          rcases Nat.le_total a b with hle | hle
          · rw [Nat.min_eq_left hle, Nat.min_eq_left (hf a b hle)]
          · rw [Nat.min_eq_right hle, Nat.min_eq_right (hf b a hle)]

theorem check_withReturns (exceptPass : Bool) {text : List Char} (h : '\r' ∉ text) :
    check exceptPass (Text.withReturns text) =
      (check exceptPass text).map (Detection.withReturns text) := by
  have hcatch : Text.first? catchAt (Text.withReturns text) =
      (Text.first? catchAt text).map (Text.shift text) :=
    Text.first?_withReturns (fun _ => rfl) fun front cs _ _ => catchAt_withReturns _ cs
  have hexcept : Text.first? exceptAt (Text.withReturns text) =
      (Text.first? exceptAt text).map (Text.shift text) :=
    Text.first?_withReturns (fun _ => rfl) fun front cs htext _ =>
      exceptAt_withReturns _ fun hmem => h (htext ▸ List.mem_append_right front hmem)
  unfold check
  simp only [hcatch, hexcept]
  have hearlier := fun b => earlier_map (fun _ _ => Text.shift_le text)
    (Text.first? catchAt text) b
  cases exceptPass with
  | false =>
      simp only [Bool.false_eq_true, if_false]
      rw [← Option.map_none (f := Text.shift text), hearlier, Option.map_map, Option.map_map]
      rfl
  | true =>
      simp only [if_true]
      rw [hearlier, Option.map_map, Option.map_map]
      rfl

end EmptyHandler

/-! ## The header -/

namespace MissingHeader

/-- The first lines end with the carriage return of the last of them, if a newline follows it. -/
theorem firstLines_withReturns (lines : Nat) (cs : List Char) :
    ∃ last, (last = [] ∨ last = ['\r']) ∧
      firstLines (lines + 1) (Text.withReturns cs) =
        Text.withReturns (firstLines (lines + 1) cs) ++ last := by
  induction cs generalizing lines with
  | nil => exact ⟨[], .inl rfl, rfl⟩
  | cons c cs ih =>
      by_cases hc : c = '\n'
      · subst hc
        rw [Text.withReturns_newline, firstLines_cons, firstLines_cons, firstLines_cons]
        simp only [if_true, show ('\r' : Char) ≠ '\n' by decide, if_false]
        cases lines with
        | zero => exact ⟨['\r'], .inr rfl, rfl⟩
        | succ lines =>
            obtain ⟨last, hlast, heq⟩ := ih lines
            refine ⟨last, hlast, ?_⟩
            rw [if_neg (Nat.succ_ne_zero lines), if_neg (Nat.succ_ne_zero lines), heq]
            rfl
      · obtain ⟨last, hlast, heq⟩ := ih lines
        refine ⟨last, hlast, ?_⟩
        rw [Text.withReturns_cons hc, firstLines_cons, firstLines_cons, if_neg hc, if_neg hc, heq,
          Text.withReturns_cons hc]
        rfl

theorem hasPart_append_return {part : List Char} (hne : part ≠ []) (hline : Text.OnOneLine part)
    {last : List Char} (hlast : last = [] ∨ last = ['\r']) (cs : List Char) :
    Text.hasPart part (Text.withReturns cs ++ last) = Text.hasPart part cs := by
  have hstarts : ∀ ds : List Char, part.isPrefixOf ('\r' :: ds) = false := by
    intro ds
    have hcut := Text.isPrefixOf_append_cons hline.2 [] ds
    rw [List.nil_append] at hcut
    obtain ⟨p, part, rfl⟩ := List.exists_cons_of_ne_nil hne
    exact hcut
  have hbreak : ∀ ds : List Char, part.isPrefixOf ('\n' :: ds) = false := by
    intro ds
    have hcut := Text.isPrefixOf_append_cons hline.1 [] ds
    rw [List.nil_append] at hcut
    obtain ⟨p, part, rfl⟩ := List.exists_cons_of_ne_nil hne
    exact hcut
  induction cs with
  | nil =>
      rcases hlast with rfl | rfl
      · rfl
      · simp [Text.hasPart, hstarts]
  | cons c cs ih =>
      by_cases hc : c = '\n'
      · subst hc
        rw [Text.withReturns_newline, List.cons_append, List.cons_append, Text.hasPart,
          Text.hasPart, Text.hasPart, hstarts, hbreak, hbreak, ih]
        rfl
      · have hhere : part.isPrefixOf (c :: (Text.withReturns cs ++ last)) =
            part.isPrefixOf (c :: cs) := by
          rw [← Text.isPrefixOf_withReturns hline (c :: cs), Text.withReturns_cons hc]
          rcases hlast with rfl | rfl
          · rw [List.append_nil]
          · rw [← List.cons_append, Text.isPrefixOf_append_cons hline.2]
        rw [Text.withReturns_cons hc, List.cons_append, Text.hasPart, Text.hasPart, hhere, ih]

theorem onOneLine_trim {name : List Char} (h : Text.OnOneLine name) :
    Text.OnOneLine (Text.trim name) := by
  have hsubset : Text.trim name ⊆ name := by
    intro c hc
    rw [Text.trim, List.mem_reverse] at hc
    have hmem := (List.dropWhile_suffix _).subset hc
    rw [List.mem_reverse] at hmem
    exact (List.dropWhile_suffix _).subset hmem
  exact ⟨fun hmem => h.1 (hsubset hmem), fun hmem => h.2 (hsubset hmem)⟩

theorem check_withReturns {name : List Char} (h : Text.OnOneLine name) (text : List Char) :
    check name (Text.withReturns text) = (check name text).map (Detection.withReturns text) := by
  have hsame : ((Text.trim name).isEmpty ||
        Text.hasPart (Text.trim name) (header (Text.withReturns text))) =
      ((Text.trim name).isEmpty || Text.hasPart (Text.trim name) (header text)) := by
    cases hname : Text.trim name with
    | nil => rfl
    | cons c rest =>
        have hline := onOneLine_trim h
        rw [hname] at hline
        obtain ⟨last, hlast, heq⟩ := firstLines_withReturns 9 text
        have hheader : header (Text.withReturns text) = Text.withReturns (header text) ++ last := heq
        rw [hheader, hasPart_append_return (by simp) hline hlast]
  unfold check
  simp only [hsame]
  split
  · rfl
  · simp [Detection.withReturns]

end MissingHeader

/-! ## Indentation -/

namespace DeepIndentation

/-- A line of nothing but blanks ends with a newline, one blank short of being too deep, and no line
above it is too deep. -/
def AlmostDeep (text : List Char) : Prop :=
  ∃ front blanks rest, text = front ++ (blanks ++ '\n' :: rest) ∧
    (front = [] ∨ front.getLast? = some '\n') ∧ blanks.length + 1 = limit ∧
    (∀ c ∈ blanks, Text.isBlank c = true ∧ c ≠ '\n') ∧
    ∀ place, Text.first? opensAt text = some place → Text.byteLength front ≤ place

/-- So many blanks follow with carriage returns exactly if they do so without, or if they are all of
a line and its carriage return. -/
theorem blanksFollow_withReturns_iff {n : Nat} {cs : List Char} :
    blanksFollow n (Text.withReturns cs) = true ↔ blanksFollow n cs = true ∨
      ∃ blanks rest, cs = blanks ++ '\n' :: rest ∧ blanks.length + 1 = n ∧
        ∀ c ∈ blanks, Text.isBlank c = true ∧ c ≠ '\n' := by
  induction n generalizing cs with
  | zero => simp [blanksFollow]
  | succ n ih =>
      cases cs with
      | nil => simp [blanksFollow]
      | cons c cs =>
          by_cases hc : c = '\n'
          · -- The carriage return is the last blank of its line.
            subst hc
            have hblank : Text.isBlank '\r' = true := by decide
            cases n with
            | zero =>
                simp only [Text.withReturns_newline, blanksFollow, hblank]
                exact ⟨fun _ => .inr ⟨[], cs, rfl, rfl, by simp⟩, fun _ => rfl⟩
            | succ n =>
                simp only [Text.withReturns_newline, blanksFollow, bne_self_eq_false,
                  Bool.and_false, Bool.false_and, Bool.false_eq_true, false_or, false_iff]
                rintro ⟨blanks, rest, hcs, hlength, hblanks⟩
                cases blanks with
                | nil => simp at hlength
                | cons b blanks =>
                    obtain ⟨rfl, -⟩ := List.cons.inj hcs
                    exact (hblanks '\n' List.mem_cons_self).2 rfl
          · rw [Text.withReturns_cons hc]
            simp only [blanksFollow, Bool.and_eq_true, ih]
            constructor
            · rintro ⟨hblank, hfollow | ⟨blanks, rest, rfl, hlength, hblanks⟩⟩
              · exact .inl ⟨hblank, hfollow⟩
              · refine .inr ⟨c :: blanks, rest, rfl, ?_, ?_⟩
                · rw [List.length_cons, hlength]
                · intro b hb
                  rcases List.mem_cons.1 hb with rfl | hb
                  · exact ⟨hblank.1, hc⟩
                  · exact hblanks b hb
            · rintro (⟨hblank, hfollow⟩ | ⟨blanks, rest, hcs, hlength, hblanks⟩)
              · exact ⟨hblank, .inl hfollow⟩
              · cases blanks with
                | nil => exact absurd (List.cons.inj hcs).1 hc
                | cons b blanks =>
                    obtain ⟨rfl, rfl⟩ := List.cons.inj hcs
                    refine ⟨⟨(hblanks c List.mem_cons_self).1, by simpa using hc⟩,
                      .inr ⟨blanks, rest, rfl, ?_, ?_⟩⟩
                    · simpa using hlength
                    · exact fun b hb => hblanks b (List.mem_cons_of_mem c hb)

theorem opensAt_withReturns {text front cs : List Char} (h : ¬AlmostDeep text)
    (htext : text = front ++ cs)
    (hfirst : ∀ place, Text.first? opensAt text = some place → Text.byteLength front ≤ place) :
    opensAt front.getLast? (Text.withReturns cs) = opensAt front.getLast? cs := by
  unfold opensAt
  rw [Bool.eq_iff_iff, Bool.and_eq_true, Bool.and_eq_true, blanksFollow_withReturns_iff]
  constructor
  · rintro ⟨hstart, hfollow | ⟨blanks, rest, rfl, hlength, hblanks⟩⟩
    · exact ⟨hstart, hfollow⟩
    · refine absurd ⟨front, blanks, rest, htext, ?_, hlength, hblanks, hfirst⟩ h
      simpa using hstart
  · exact fun ⟨hstart, hfollow⟩ => ⟨hstart, .inl hfollow⟩

theorem check_withReturns {text : List Char} (h : ¬AlmostDeep text) :
    check (Text.withReturns text) = (check text).map (Detection.withReturns text) := by
  unfold check
  rw [Text.first?_withReturns (fun _ => rfl) fun _ _ => opensAt_withReturns h, Option.map_map,
    Option.map_map]
  rfl

end DeepIndentation

end Neatness
