import Neatness.Location
import Neatness.Proofs.Search
import Neatness.Text.Blank
import Neatness.Text.Word

/-!
# Lines that end with a carriage return

`Text.withReturns` puts a carriage return in front of every newline, and `Text.shift` says where an
offset of a text goes.  A search that looks at neither of the two characters finds the same places.

* `dropWhile_withReturns`, `isPrefixOf_withReturns` and `drop_withReturns` are about the start of a
  text.
* `ofOffset_withReturns`: an offset keeps its line and its column.
* `first?_withReturns` and `occurrences_withReturns` are about the places that are found.  A walk
  over a text is followed by what it has left behind, so that its offset is the length of that.
-/

namespace Neatness
namespace Text

/-- A text with a carriage return in front of every newline. -/
def withReturns : List Char → List Char
  | [] => []
  | c :: cs => if c = '\n' then '\r' :: '\n' :: withReturns cs else c :: withReturns cs

@[simp] theorem withReturns_nil : withReturns [] = [] := rfl

@[simp] theorem withReturns_newline (cs : List Char) :
    withReturns ('\n' :: cs) = '\r' :: '\n' :: withReturns cs := rfl

theorem withReturns_cons {c : Char} (h : c ≠ '\n') (cs : List Char) :
    withReturns (c :: cs) = c :: withReturns cs := by
  rw [withReturns, if_neg h]

@[simp] theorem withReturns_append (xs ys : List Char) :
    withReturns (xs ++ ys) = withReturns xs ++ withReturns ys := by
  induction xs with
  | nil => rfl
  | cons c cs ih =>
      by_cases hc : c = '\n'
      · subst hc
        simp [ih]
      · rw [List.cons_append, withReturns_cons hc, withReturns_cons hc, ih, List.cons_append]

/-- A split in front of a character that ends no line comes from a split of the text itself. -/
theorem exists_of_withReturns_eq_append {cs front rest : List Char} {c : Char}
    (h : withReturns cs = front ++ c :: rest) (hcr : c ≠ '\r') (hnl : c ≠ '\n') :
    ∃ front' rest', cs = front' ++ c :: rest' ∧ front = withReturns front' := by
  induction cs generalizing front with
  | nil => simp at h
  | cons d cs ih =>
      by_cases hd : d = '\n'
      · subst hd
        rw [withReturns_newline] at h
        match front with
        -- The split is not in front of one of the two characters of the line end.
        | [] => exact absurd (List.cons.inj h).1.symm hcr
        | [_] => exact absurd (List.cons.inj (List.cons.inj h).2).1.symm hnl
        | _ :: _ :: front =>
            simp only [List.cons_append, List.cons.injEq] at h
            obtain ⟨rfl, rfl, hrest⟩ := h
            obtain ⟨front', rest', rfl, rfl⟩ := ih hrest
            exact ⟨'\n' :: front', rest', rfl, rfl⟩
      · rw [withReturns_cons hd] at h
        cases front with
        | nil =>
            obtain ⟨rfl, -⟩ := List.cons.inj h
            exact ⟨[], cs, rfl, rfl⟩
        | cons _ front =>
            obtain ⟨rfl, hrest⟩ := List.cons.inj h
            obtain ⟨front', rest', rfl, rfl⟩ := ih hrest
            exact ⟨d :: front', rest', rfl, (withReturns_cons hd front').symm⟩

theorem head?_withReturns_eq_some_iff {cs : List Char} {c : Char} (hcr : c ≠ '\r')
    (hnl : c ≠ '\n') : (withReturns cs).head? = some c ↔ cs.head? = some c := by
  cases cs with
  | nil => rfl
  | cons d cs =>
      by_cases hd : d = '\n'
      · subst hd
        simp [Ne.symm hcr, Ne.symm hnl]
      · rw [withReturns_cons hd]
        rfl

/-- A text starts with a character that ends no line exactly if it does so with carriage returns. -/
theorem starts_withReturns {c : Char} (hcr : c ≠ '\r') (hnl : c ≠ '\n') (cs : List Char) :
    (∃ rest, cs = c :: rest ∧ withReturns cs = c :: withReturns rest) ∨
      (∀ rest, cs ≠ c :: rest) ∧ ∀ rest, withReturns cs ≠ c :: rest := by
  by_cases hhead : cs.head? = some c
  · obtain ⟨rest, rfl⟩ := List.head?_eq_some_iff.1 hhead
    exact .inl ⟨rest, rfl, withReturns_cons hnl rest⟩
  · refine .inr ⟨fun rest hcs => hhead (List.head?_eq_some_iff.2 ⟨rest, hcs⟩), fun rest hcs => ?_⟩
    exact hhead ((head?_withReturns_eq_some_iff hcr hnl).1 (List.head?_eq_some_iff.2 ⟨rest, hcs⟩))

theorem head?_withReturns_beq {c : Char} (hcr : c ≠ '\r') (hnl : c ≠ '\n') (cs : List Char) :
    ((withReturns cs).head? == some c) = (cs.head? == some c) := by
  rw [Bool.eq_iff_iff, beq_iff_eq, beq_iff_eq, head?_withReturns_eq_some_iff hcr hnl]

@[simp] theorem isEmpty_withReturns (cs : List Char) :
    (withReturns cs).isEmpty = cs.isEmpty := by
  cases cs with
  | nil => rfl
  | cons c cs =>
      rw [withReturns]
      split <;> rfl

theorem mem_withReturns {c : Char} (h : c ≠ '\r') (cs : List Char) :
    c ∈ withReturns cs ↔ c ∈ cs := by
  induction cs with
  | nil => rfl
  | cons d cs ih =>
      by_cases hd : d = '\n'
      · subst hd
        simp [h, ih]
      · rw [withReturns_cons hd, List.mem_cons, List.mem_cons, ih]

theorem byteLength_le_withReturns (cs : List Char) :
    byteLength cs ≤ byteLength (withReturns cs) := by
  induction cs with
  | nil => exact Nat.le_refl 0
  | cons c cs ih =>
      by_cases hc : c = '\n'
      · subst hc
        rw [withReturns_newline, byteLength_cons, byteLength_cons, byteLength_cons]
        omega
      · rw [withReturns_cons hc, byteLength_cons, byteLength_cons]
        omega

/-! ## The start of a text -/

/-- A class that does not tell the two characters of a line end apart ends a run at the same
place. -/
theorem dropWhile_withReturns {p : Char → Bool} (h : p '\r' = p '\n') (cs : List Char) :
    (withReturns cs).dropWhile p = withReturns (cs.dropWhile p) := by
  induction cs with
  | nil => rfl
  | cons c cs ih =>
      by_cases hc : c = '\n'
      · subst hc
        cases hp : p '\n' with
        | true =>
            rw [hp] at h
            simp [h, hp, ih]
        | false =>
            rw [hp] at h
            simp [h, hp]
      · rw [withReturns_cons hc]
        cases hp : p c with
        | true => simp [hp, ih]
        | false => simp [hp, withReturns_cons hc]

theorem takeWhile_withReturns {p : Char → Bool} (h : p '\r' = p '\n') (cs : List Char) :
    (withReturns cs).takeWhile p = withReturns (cs.takeWhile p) := by
  induction cs with
  | nil => rfl
  | cons c cs ih =>
      by_cases hc : c = '\n'
      · subst hc
        cases hp : p '\n' with
        | true =>
            rw [hp] at h
            simp [h, hp, ih]
        | false =>
            rw [hp] at h
            simp [h, hp]
      · rw [withReturns_cons hc]
        cases hp : p c with
        | true => simp [hp, ih, withReturns_cons hc]
        | false => simp [hp]

/-- A word on one line. -/
def OnOneLine (word : List Char) : Prop :=
  '\n' ∉ word ∧ '\r' ∉ word

instance (word : List Char) : Decidable (OnOneLine word) :=
  inferInstanceAs (Decidable (_ ∧ _))

theorem OnOneLine.withReturns_eq {word : List Char} (h : OnOneLine word) :
    withReturns word = word := by
  induction word with
  | nil => rfl
  | cons w word ih =>
      have hw : w ≠ '\n' := fun heq => h.1 (heq ▸ List.mem_cons_self)
      rw [withReturns_cons hw, ih ⟨fun hmem => h.1 (List.mem_cons_of_mem w hmem),
        fun hmem => h.2 (List.mem_cons_of_mem w hmem)⟩]

theorem prefix_withReturns_iff {word cs : List Char} (h : OnOneLine word) :
    word <+: withReturns cs ↔ word <+: cs := by
  induction word generalizing cs with
  | nil => simp
  | cons w word ih =>
      have hnl : w ≠ '\n' := fun heq => h.1 (heq ▸ List.mem_cons_self)
      have hcr : w ≠ '\r' := fun heq => h.2 (heq ▸ List.mem_cons_self)
      have hword : OnOneLine word := ⟨fun hmem => h.1 (List.mem_cons_of_mem w hmem),
        fun hmem => h.2 (List.mem_cons_of_mem w hmem)⟩
      cases cs with
      | nil => rfl
      | cons c cs =>
          by_cases hc : c = '\n'
          · subst hc
            simp [List.cons_prefix_cons, hnl, hcr]
          · rw [withReturns_cons hc, List.cons_prefix_cons, List.cons_prefix_cons, ih hword]

theorem isPrefixOf_withReturns {word : List Char} (h : OnOneLine word) (cs : List Char) :
    word.isPrefixOf (withReturns cs) = word.isPrefixOf cs := by
  rw [Bool.eq_iff_iff, List.isPrefixOf_iff_prefix, List.isPrefixOf_iff_prefix,
    prefix_withReturns_iff h]

/-- What follows the first characters of a text. -/
theorem drop_withReturns (n : Nat) (cs : List Char) :
    (withReturns cs).drop (withReturns (cs.take n)).length = withReturns (cs.drop n) := by
  rw [← List.take_append_drop n cs, withReturns_append, List.take_append_drop, List.drop_left]

theorem take_withReturns (n : Nat) (cs : List Char) :
    (withReturns cs).take (withReturns (cs.take n)).length = withReturns (cs.take n) := by
  rw [← List.take_append_drop n cs, withReturns_append, List.take_append_drop, List.take_left]

/-- What follows a word at the start of a text. -/
theorem drop_length_withReturns {word cs : List Char} (h : OnOneLine word) (hleads : word <+: cs) :
    (withReturns cs).drop word.length = withReturns (cs.drop word.length) := by
  obtain ⟨rest, rfl⟩ := hleads
  rw [withReturns_append, h.withReturns_eq, List.drop_left, List.drop_left]

@[simp] theorem closesWord_withReturns (cs : List Char) :
    closesWord (withReturns cs) = closesWord cs := by
  cases cs with
  | nil => rfl
  | cons c cs =>
      by_cases hc : c = '\n'
      · subst hc
        show (!isWordChar '\r') = !isWordChar '\n'
        decide
      · rw [withReturns_cons hc]
        rfl

/-! ## Offsets -/

/-- How many newlines end in front of an offset. -/
def newlinesBefore : List Char → Nat → Nat
  | [], _ => 0
  | c :: cs, offset =>
    if c.utf8Size ≤ offset then
      (if c = '\n' then 1 else 0) + newlinesBefore cs (offset - c.utf8Size)
    else 0

/-- Where an offset of a text goes when every newline gets a carriage return. -/
def shift (text : List Char) (offset : Nat) : Nat :=
  offset + newlinesBefore text offset

@[simp] theorem shift_zero (text : List Char) : shift text 0 = 0 := by
  cases text with
  | nil => rfl
  | cons c cs =>
      have hc : ¬c.utf8Size ≤ 0 := Nat.not_le_of_lt c.utf8Size_pos
      simp [shift, newlinesBefore, hc]

/-- The shift behind the first character of a text. -/
theorem shift_cons (c : Char) (cs : List Char) (offset : Nat) :
    shift (c :: cs) (c.utf8Size + offset) = byteLength (withReturns [c]) + shift cs offset := by
  have hle : c.utf8Size ≤ c.utf8Size + offset := Nat.le_add_right _ _
  rw [shift, newlinesBefore, if_pos hle, Nat.add_sub_cancel_left, shift]
  by_cases hc : c = '\n'
  · subst hc
    show 1 + offset + (1 + newlinesBefore cs offset) = 1 + 1 + 0 + (offset + newlinesBefore cs offset)
    omega
  · rw [if_neg hc, withReturns_cons hc, withReturns_nil, byteLength_cons, byteLength_nil]
    omega

theorem newlinesBefore_mono (cs : List Char) {a b : Nat} (h : a ≤ b) :
    newlinesBefore cs a ≤ newlinesBefore cs b := by
  induction cs generalizing a b with
  | nil => exact Nat.le_refl 0
  | cons c cs ih =>
      rw [newlinesBefore, newlinesBefore]
      by_cases ha : c.utf8Size ≤ a
      · have hb : c.utf8Size ≤ b := by omega
        rw [if_pos ha, if_pos hb]
        exact Nat.add_le_add_left (ih (by omega)) _
      · rw [if_neg ha]
        exact Nat.zero_le _

theorem shift_le (text : List Char) {a b : Nat} (h : a ≤ b) : shift text a ≤ shift text b :=
  Nat.add_le_add h (newlinesBefore_mono text h)

theorem shift_lt (text : List Char) {a b : Nat} (h : a < b) : shift text a < shift text b := by
  have hle := newlinesBefore_mono text (Nat.le_of_lt h)
  unfold shift
  omega

theorem shift_injective (text : List Char) {a b : Nat} (h : shift text a = shift text b) :
    a = b := by
  rcases Nat.lt_trichotomy a b with hlt | heq | hlt
  · have := shift_lt text hlt
    omega
  · exact heq
  · have := shift_lt text hlt
    omega

/-- The shift of the place between two parts of a text. -/
theorem shift_byteLength (front cs : List Char) :
    shift (front ++ cs) (byteLength front) = byteLength (withReturns front) := by
  induction front with
  | nil => simp
  | cons c front ih =>
      rw [List.cons_append, byteLength_cons, shift_cons, ih, ← byteLength_append,
        ← withReturns_append, List.singleton_append]

/-! ## The first place that passes a test -/

/-- A test that does not tell the line ends of a text apart, down to the first place that passes,
and fails between the two characters of a line end, passes first at the same place. -/
theorem firstFrom_withReturns {probe : Probe} {text : List Char}
    (hbetween : ∀ cs, probe (some '\r') ('\n' :: cs) = false)
    (hsame : ∀ front cs, text = front ++ cs →
      (∀ place, first? probe text = some place → byteLength front ≤ place) →
      probe front.getLast? (withReturns cs) = probe front.getLast? cs)
    {front cs : List Char} (htext : text = front ++ cs)
    (hfirst : first? probe text = firstFrom probe front.getLast? (byteLength front) cs) :
    firstFrom probe front.getLast? (byteLength (withReturns front)) (withReturns cs) =
      (firstFrom probe front.getLast? (byteLength front) cs).map (shift text) := by
  have hshift : shift text (byteLength front) = byteLength (withReturns front) := by
    rw [htext, shift_byteLength]
  have hhere := hsame front cs htext fun place hplace => le_of_firstFrom (hfirst ▸ hplace)
  -- Nothing in `front` passes, so that the search from here on is the search in the whole text.
  induction cs generalizing front with
  | nil =>
      rw [withReturns_nil, firstFrom, firstFrom]
      split
      · rw [Option.map_some, hshift]
      · rfl
  | cons c cs ih =>
      by_cases hprobe : probe front.getLast? (c :: cs) = true
      · have hfound : ∀ offset, firstFrom probe front.getLast? offset (withReturns (c :: cs)) =
            some offset := by
          intro offset
          cases hreturns : withReturns (c :: cs) with
          | nil => rw [firstFrom, ← hreturns, hhere, if_pos hprobe]
          | cons d ds => rw [firstFrom, ← hreturns, hhere, if_pos hprobe]
        rw [hfound, firstFrom, if_pos hprobe, Option.map_some, hshift]
      · have hsplit : text = front ++ [c] ++ cs := by rw [htext, List.append_assoc]; rfl
        have hlength := byteLength_concat front c
        have hrest : first? probe text =
            firstFrom probe (front ++ [c]).getLast? (byteLength (front ++ [c])) cs := by
          rw [hfirst, firstFrom, if_neg hprobe, List.getLast?_concat, hlength]
        have hnext := ih hsplit hrest (by rw [hsplit, shift_byteLength])
          (hsame _ _ hsplit fun place hplace => le_of_firstFrom (hrest ▸ hplace))
        rw [List.getLast?_concat, withReturns_append, byteLength_append, hlength] at hnext
        by_cases hc : c = '\n'
        · subst hc
          rw [withReturns_newline] at hhere ⊢
          rw [firstFrom, firstFrom, firstFrom, hhere, if_neg hprobe, if_neg hprobe, hbetween]
          exact hnext
        · rw [withReturns_cons hc] at hhere ⊢
          rw [firstFrom, firstFrom, hhere, if_neg hprobe, if_neg hprobe]
          rw [withReturns_cons hc] at hnext
          exact hnext

theorem first?_withReturns {probe : Probe} {text : List Char}
    (hbetween : ∀ cs, probe (some '\r') ('\n' :: cs) = false)
    (hsame : ∀ front cs, text = front ++ cs →
      (∀ place, first? probe text = some place → byteLength front ≤ place) →
      probe front.getLast? (withReturns cs) = probe front.getLast? cs) :
    first? probe (withReturns text) = (first? probe text).map (shift text) :=
  firstFrom_withReturns hbetween hsame (List.nil_append text).symm rfl

/-! ## Forms -/

/-- A form that takes the same characters, and with them the carriage returns in between. -/
def Form.KeepsTo (form : Form) : Prop :=
  ∀ cs, form (withReturns cs) = (form cs).map fun n => (withReturns (cs.take n)).length

theorem keepsTo_literal {word : List Char} (h : OnOneLine word) : (literal word).KeepsTo := by
  intro cs
  unfold literal
  rw [isPrefixOf_withReturns h]
  split
  · rename_i hleads
    obtain ⟨rest, rfl⟩ := List.isPrefixOf_iff_prefix.1 hleads
    rw [Option.map_some, List.take_left, h.withReturns_eq]
  · rfl

theorem keepsTo_run {p : Char → Bool} (h : p '\r' = p '\n') : (run p).KeepsTo := by
  intro cs
  have htake : cs.takeWhile p = cs.take (cs.takeWhile p).length :=
    List.prefix_iff_eq_take.1 (List.takeWhile_prefix p)
  unfold run
  rw [takeWhile_withReturns h, Option.map_some, ← htake]

theorem keepsTo_wordEnd : (wordEnd closesWord).KeepsTo := by
  intro cs
  unfold wordEnd
  rw [closesWord_withReturns]
  split <;> rfl

theorem Form.KeepsTo.andThen {f g : Form} (hf : f.KeepsTo) (hg : g.KeepsTo) :
    (f.andThen g).KeepsTo := by
  intro cs
  unfold Form.andThen
  rw [hf cs]
  cases f cs with
  | none => rfl
  | some n =>
      simp only [Option.map_some]
      rw [drop_withReturns, hg]
      cases g (cs.drop n) with
      | none => rfl
      | some m =>
          simp only [Option.map_some]
          rw [List.take_add, withReturns_append, List.length_append]

/-- The first of several forms, each given by a value. -/
theorem keepsTo_findSome? {α : Type} {form : α → Form} {l : List α}
    (h : ∀ a ∈ l, (form a).KeepsTo) : Form.KeepsTo fun cs => l.findSome? fun a => form a cs := by
  intro cs
  induction l with
  | nil => rfl
  | cons a l ih =>
      have hlater := ih fun b hb => h b (List.mem_cons_of_mem a hb)
      simp only [List.findSome?_cons] at hlater ⊢
      rw [h a List.mem_cons_self cs]
      cases form a cs with
      | none => exact hlater
      | some n => rfl

theorem keepsTo_oneOf {forms : List Form} (h : ∀ form ∈ forms, form.KeepsTo) :
    (Form.oneOf forms).KeepsTo :=
  keepsTo_findSome? h

/-- A form that starts with a word does not stand at a newline. -/
theorem literal_andThen_newline {word : List Char} (h : OnOneLine word) (hne : word ≠ [])
    (form : Form) (cs : List Char) : ((literal word).andThen form) ('\n' :: cs) = none := by
  have hliteral : literal word ('\n' :: cs) = none := by
    unfold literal
    rw [if_neg]
    intro hleads
    obtain ⟨w, word, rfl⟩ := List.exists_cons_of_ne_nil hne
    have hw := (List.cons_prefix_cons.1 (List.isPrefixOf_iff_prefix.1 hleads)).1
    exact h.1 (hw ▸ List.mem_cons_self)
  rw [Form.andThen, hliteral]

/-- A place of a form, in the text with carriage returns. -/
def Occurrence.withReturns (text : List Char) (o : Occurrence) : Occurrence :=
  ⟨shift text o.start, Text.withReturns o.here,
    (Text.withReturns (o.here.take o.length)).length⟩

/-- The places of a form that stands at no newline. -/
theorem occurrencesFrom_withReturns {opens : Option Char → Bool} {form : Form} {text : List Char}
    (hnewline : ∀ cs, form ('\n' :: cs) = none) (hform : form.KeepsTo) {front cs : List Char}
    (skip : Nat) (htext : text = front ++ cs) :
    occurrencesFrom opens form front.getLast? (byteLength (withReturns front))
        (withReturns (cs.take skip)).length (withReturns cs) =
      (occurrencesFrom opens form front.getLast? (byteLength front) skip cs).map
        (Occurrence.withReturns text) := by
  induction cs generalizing front skip with
  | nil => rfl
  | cons c cs ih =>
      have hshift : shift text (byteLength front) = byteLength (withReturns front) := by
        rw [htext, shift_byteLength]
      have hsplit : text = front ++ [c] ++ cs := by rw [htext, List.append_assoc]; rfl
      have hnext := fun skip => ih skip hsplit
      simp only [List.getLast?_concat, withReturns_append, byteLength_append, byteLength_cons,
        byteLength_nil] at hnext
      have hkeeps := hform (c :: cs)
      by_cases hc : c = '\n'
      · subst hc
        rw [hnewline] at hkeeps
        cases skip with
        | succ skip =>
            rw [List.take_succ_cons, withReturns_newline, withReturns_newline, List.length_cons,
              List.length_cons, occurrencesFrom, occurrencesFrom, occurrencesFrom]
            exact hnext skip
        | zero =>
            rw [withReturns_newline] at hkeeps ⊢
            rw [List.take_zero, withReturns_nil, List.length_nil, occurrencesFrom, hkeeps]
            simp only [Option.map_none, ite_self]
            rw [occurrencesFrom, occurrencesFrom, hnewline, hnewline]
            simp only [ite_self]
            exact hnext 0
      · rw [withReturns_cons hc] at hkeeps ⊢
        simp only [withReturns_cons hc, withReturns_nil, byteLength_cons, byteLength_nil,
          Nat.add_zero] at hnext
        cases skip with
        | succ skip =>
            rw [List.take_succ_cons, withReturns_cons hc, List.length_cons, occurrencesFrom,
              occurrencesFrom]
            exact hnext skip
        | zero =>
            rw [List.take_zero, withReturns_nil, List.length_nil, occurrencesFrom, hkeeps,
              occurrencesFrom]
            cases hopens : opens front.getLast? with
            | false => exact hnext 0
            | true =>
                simp only [if_true]
                cases hhere : form (c :: cs) with
                | none => exact hnext 0
                | some n =>
                    have hskip : (withReturns ((c :: cs).take n)).length - 1 =
                        (withReturns (cs.take (n - 1))).length := by
                      cases n with
                      | zero => rfl
                      | succ n =>
                          rw [List.take_succ_cons, withReturns_cons hc, List.length_cons]
                          rfl
                    simp only [Option.map_some, List.map_cons]
                    rw [hskip, hnext (n - 1), Occurrence.withReturns, hshift, withReturns_cons hc]

theorem occurrences_withReturns {opens : Option Char → Bool} {form : Form}
    (hnewline : ∀ cs, form ('\n' :: cs) = none) (hform : form.KeepsTo) (text : List Char) :
    occurrences opens form (withReturns text) =
      (occurrences opens form text).map (Occurrence.withReturns text) :=
  occurrencesFrom_withReturns hnewline hform 0 (List.nil_append text).symm

end Text

/-- An offset keeps its line and its column. -/
theorem Location.walk_withReturns (here : Location) (text : List Char) (offset : Nat) :
    walk here (Text.shift text offset) (Text.withReturns text) = walk here offset text := by
  induction text generalizing here offset with
  | nil => rfl
  | cons c cs ih =>
      by_cases hle : c.utf8Size ≤ offset
      · obtain ⟨rest, rfl⟩ : ∃ rest, offset = c.utf8Size + rest := ⟨offset - c.utf8Size, by omega⟩
        rw [Text.shift_cons, walk, if_pos hle, Nat.add_sub_cancel_left, ← ih]
        by_cases hc : c = '\n'
        · -- The carriage return moves one column on, and the newline starts the next line anyway.
          subst hc
          have hcr : '\r'.utf8Size = 1 := rfl
          have hnl : '\n'.utf8Size = 1 := rfl
          have htwo : Text.byteLength (Text.withReturns ['\n']) = 2 := rfl
          rw [htwo, Text.withReturns_newline, walk, if_pos (by omega), walk, if_pos (by omega)]
          have hrest : 2 + Text.shift cs rest - '\r'.utf8Size - '\n'.utf8Size =
              Text.shift cs rest := by omega
          rw [hrest]
          rfl
        · rw [Text.withReturns_cons hc, Text.withReturns_cons hc, Text.withReturns_nil,
            Text.byteLength_cons, Text.byteLength_nil, Nat.add_zero, walk,
            if_pos (Nat.le_add_right _ _), Nat.add_sub_cancel_left]
      · have hshift : Text.shift (c :: cs) offset = offset := by
          simp [Text.shift, Text.newlinesBefore, hle]
        rw [hshift, walk, if_neg hle]
        by_cases hc : c = '\n'
        · subst hc
          rw [Text.withReturns_newline, walk]
          exact if_neg hle
        · rw [Text.withReturns_cons hc, walk, if_neg hle]

theorem Location.ofOffset_withReturns (text : List Char) (offset : Nat) :
    ofOffset (Text.withReturns text) (Text.shift text offset) = ofOffset text offset :=
  walk_withReturns _ text offset

end Neatness
