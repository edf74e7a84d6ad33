import Neatness.Json.Parse
import Neatness.Json.Write

/-!
# Reading the words of a JSON text

What the scanner makes of a text, word by word.  Every word takes at least one character, so the
scanner never runs out of steps and can be told by equations: `Token.scan_space` passes over white
space and `Token.scan_of_read?` takes one word.

* `stringFrom_escaped` reads back what the writer puts between quotes.
* `unsigned?_written` reads back a number as the writer gives it, in front of anything that does not
  go on with the number (`endsNumber`).
-/

namespace Neatness
namespace Json

/-! ## Every word takes characters -/

theorem length_stringFrom {read : Option (List Char)} {cs rest : List Char} {s : Option String}
    (h : stringFrom read cs = some (s, rest)) : rest.length < cs.length := by
  fun_induction stringFrom read cs <;> simp_all <;> omega

theorem length_integerPart? {cs ds rest : List Char} (h : integerPart? cs = some (ds, rest)) :
    rest.length < cs.length := by
  unfold integerPart? at h
  split at h
  · cases h
  · cases h
  · next hne _ =>
    simp only [Option.some.injEq, Prod.mk.injEq] at h
    obtain ⟨-, rfl⟩ := h
    have hpos := List.length_pos_iff.2 hne
    have hle := (List.takeWhile_prefix Char.isDigit (l := cs)).length_le
    rw [List.length_drop]
    omega

theorem length_fractionPart? {cs ds rest : List Char} (h : fractionPart? cs = some (ds, rest)) :
    rest.length ≤ cs.length := by
  unfold fractionPart? at h
  split at h
  · split at h
    · cases h
    · simp only [Option.some.injEq, Prod.mk.injEq] at h
      obtain ⟨-, rfl⟩ := h
      rw [List.length_drop, List.length_cons]
      omega
  · simp only [Option.some.injEq, Prod.mk.injEq] at h
    exact Nat.le_of_eq (h.2 ▸ rfl)

/-- Whether a minus sign starts an exponent, and the exponent without its sign. -/
def exponentSign : List Char → Bool × List Char
  | '+' :: cs => (false, cs)
  | '-' :: cs => (true, cs)
  | cs => (false, cs)

theorem length_exponentSign (cs : List Char) : (exponentSign cs).2.length ≤ cs.length := by
  unfold exponentSign
  split <;> simp

theorem exponentPart?_cons {c : Char} (hc : (c == 'e' || c == 'E') = true) (cs : List Char) :
    exponentPart? (c :: cs) =
      match (exponentSign cs).2.takeWhile Char.isDigit with
      | [] => none
      | ds =>
        some (some (if (exponentSign cs).1 then -(digitsValue ds : Int) else digitsValue ds),
          (exponentSign cs).2.drop ds.length) := by
  refine (if_pos hc).trans ?_
  rfl

theorem length_exponentPart? {cs rest : List Char} {e : Option Int}
    (h : exponentPart? cs = some (e, rest)) : rest.length ≤ cs.length := by
  cases cs with
  | nil => simp_all [exponentPart?]
  | cons c cs =>
      by_cases hc : (c == 'e' || c == 'E') = true
      · have hle := length_exponentSign cs
        rw [exponentPart?_cons hc] at h
        split at h
        · cases h
        · simp only [Option.some.injEq, Prod.mk.injEq] at h
          obtain ⟨-, rfl⟩ := h
          rw [List.length_drop, List.length_cons]
          omega
      · have hother : exponentPart? (c :: cs) = some (none, c :: cs) := if_neg hc
        rw [hother] at h
        simp only [Option.some.injEq, Prod.mk.injEq] at h
        exact Nat.le_of_eq (h.2 ▸ rfl)

theorem length_unsigned? {negative : Bool} {cs rest : List Char} {n : Number}
    (h : unsigned? negative cs = some (n, rest)) : rest.length < cs.length := by
  unfold unsigned? at h
  simp only [Option.bind_eq_bind, Option.bind_eq_some_iff, Prod.exists] at h
  obtain ⟨whole, afterWhole, hwhole, fraction, afterFraction, hfraction, exponent, after,
    hexponent, heq⟩ := h
  simp only [Option.pure_def, Option.some.injEq, Prod.mk.injEq] at heq
  obtain ⟨-, rfl⟩ := heq
  have hlt := length_integerPart? hwhole
  have hle := length_fractionPart? hfraction
  have hle' := length_exponentPart? hexponent
  omega

namespace Token

theorem length_read? {cs rest : List Char} {t : Token} (h : read? cs = some (t, rest)) :
    rest.length < cs.length := by
  have hnumber : ∀ {negative ds}, (unsigned? negative ds).map (fun p => (Token.num p.1, p.2)) =
      some (t, rest) → rest.length < ds.length := by
    intro negative ds h
    obtain ⟨⟨n, after⟩, hread, heq⟩ := Option.map_eq_some_iff.1 h
    cases heq
    exact length_unsigned? hread
  unfold read? at h
  split at h
  case h_1 => cases h
  case h_8 ds =>
    obtain ⟨⟨s, after⟩, hread, heq⟩ := Option.map_eq_some_iff.1 h
    cases heq
    have hlt := length_stringFrom hread
    rw [List.length_cons]
    omega
  case h_12 ds =>
    have hlt := hnumber h
    rw [List.length_cons]
    omega
  case h_13 => exact hnumber h
  all_goals
    cases h
    simp only [List.length_cons]
    omega

theorem scanFrom_eq {fuel other : Nat} {cs : List Char} (hfuel : cs.length < fuel)
    (hother : cs.length < other) : scanFrom fuel cs = scanFrom other cs := by
  induction fuel generalizing cs other with
  | zero => omega
  | succ fuel ih =>
      cases other with
      | zero => omega
      | succ other =>
          cases cs with
          | nil => rfl
          | cons c cs =>
              rw [List.length_cons] at hfuel hother
              rw [scanFrom, scanFrom, ih (by omega) (by omega : cs.length < other)]
              cases hread : read? (c :: cs) with
              | none => rfl
              | some found =>
                  obtain ⟨t, rest⟩ := found
                  -- What is left behind a word is shorter, so both numbers of steps last.
                  have hlt := length_read? hread
                  rw [List.length_cons] at hlt
                  simp only
                  rw [ih (by omega) (by omega : rest.length < other)]

/-! ## The scanner in equations -/

@[simp] theorem scan_nil : scan [] = some [] := rfl

/-- White space is passed over. -/
theorem scan_space {c : Char} (hc : isSpace c = true) (cs : List Char) :
    scan (c :: cs) = scan cs := by
  rw [scan, scanFrom, if_pos hc]
  exact scanFrom_eq (by simp) (by simp)

/-- No word starts with white space. -/
theorem isSpace_of_read? {c : Char} {cs : List Char} {found : Token × List Char}
    (h : read? (c :: cs) = some found) : isSpace c = false := by
  rw [Bool.eq_false_iff]
  intro hspace
  simp only [isSpace, Bool.or_eq_true, beq_iff_eq] at hspace
  rcases hspace with ((rfl | rfl) | rfl) | rfl <;> cases h

/-- A word is taken, and scanning goes on behind it. -/
theorem scan_of_read? {cs rest : List Char} {t : Token} (h : read? cs = some (t, rest)) :
    scan cs = (scan rest).map (t :: ·) := by
  cases cs with
  | nil => cases h
  | cons c cs =>
      have hlt := length_read? h
      rw [scan, scanFrom, if_neg (by simp [isSpace_of_read? h]), h]
      simp only
      rw [scan, scanFrom_eq hlt (Nat.lt_succ_self rest.length)]

end Token

/-! ## Strings -/

theorem hexValue?_hexDigit {n : Nat} (h : n < 16) : hexValue? (hexDigit n) = some n := by
  have hall : ∀ n < 16, hexValue? (hexDigit n) = some n := by decide
  exact hall n h

/-- A control character is read back from its four digits. -/
theorem hexUnit?_control {n : Nat} (h : n < 0x20) :
    hexUnit? '0' '0' (hexDigit (n / 16)) (hexDigit (n % 16)) = some n := by
  have hzero : hexValue? '0' = some 0 := by decide
  rw [hexUnit?, hzero, hexValue?_hexDigit (by omega), hexValue?_hexDigit (by omega)]
  simp only [Option.some.injEq]
  omega

/-- A character that needs no escape stands for itself. -/
theorem stringFrom_plain {c : Char} (hquote : c ≠ '\x22') (hslash : c ≠ '\\')
    (hcontrol : ¬c.toNat < 0x20) (read : Option (List Char)) (cs : List Char) :
    stringFrom read (c :: cs) = stringFrom (push c read) cs := by
  rw [stringFrom]
  · rw [if_neg hcontrol]
  · exact hquote
  · exact fun _ _ _ _ _ heq _ => hslash heq
  · exact fun _ _ heq _ => hslash heq

/-- What the writer makes of a character is read back as that character. -/
theorem stringFrom_escape (c : Char) (read : Option (List Char)) (cs : List Char) :
    stringFrom read (escape c ++ cs) = stringFrom (push c read) cs := by
  unfold escape
  by_cases hquote : c = '\x22'
  · subst hquote
    rfl
  by_cases hslash : c = '\\'
  · subst hslash
    rfl
  rw [if_neg hquote, if_neg hslash]
  -- The five escapes by one letter, the escapes by number, and all other characters.
  split
  · next h => subst h; rfl
  split
  · next h => subst h; rfl
  split
  · next h => subst h; rfl
  split
  · next h => subst h; rfl
  split
  · next h => subst h; rfl
  split
  · next hcontrol =>
    -- Four digits that stand for a control character are no half of a pair.
    have hhigh : isHighHalf c.toNat = false := by simp [isHighHalf]; omega
    have hlow : isLowHalf c.toNat = false := by simp [isLowHalf]; omega
    rw [List.cons_append, List.cons_append, List.cons_append, List.cons_append, List.cons_append,
      List.cons_append, List.nil_append, stringFrom, hexUnit?_control hcontrol]
    simp only [hhigh, hlow, Bool.false_eq_true, if_false, Char.ofNat_toNat]
  · next hcontrol =>
    exact stringFrom_plain hquote hslash hcontrol read cs

/-- What the writer makes of a text is read back as that text. -/
theorem stringFrom_escaped (cs read rest : List Char) :
    stringFrom (some read) (cs.flatMap escape ++ '\x22' :: rest) =
      some (some (String.ofList (read.reverse ++ cs)), rest) := by
  induction cs generalizing read with
  | nil => simp [stringFrom]
  | cons c cs ih =>
      rw [List.flatMap_cons, List.append_assoc, stringFrom_escape]
      refine (ih (c :: read)).trans ?_
      rw [List.reverse_cons, List.append_assoc]
      rfl

/-- A quoted text is one word. -/
theorem Token.read?_quote (s : String) (rest : List Char) :
    Token.read? (quote s ++ rest) = some (.str (some s), rest) := by
  have hread := stringFrom_escaped s.toList [] rest
  rw [List.reverse_nil, List.nil_append, String.ofList_toList] at hread
  rw [quote, List.cons_append, List.cons_append, List.append_assoc, List.singleton_append,
    Token.read?, hread]
  rfl

/-! ## Numbers -/

/-- A number does not go on with this text. -/
def endsNumber : List Char → Bool
  | [] => true
  | c :: _ => !(c.isDigit || c == '.' || c == 'e' || c == 'E')

/-- The digits behind the point, with the point. -/
def fractionText : List (Fin 10) → List Char
  | [] => []
  | ds => '.' :: ds.map fun d => Nat.digitChar d.val

/-- The exponent, with its letter. -/
def exponentText : Option Int → List Char
  | none => []
  | some e => 'e' :: (if e < 0 then ['-'] else []) ++ Nat.toDigits 10 e.natAbs

theorem writeNumber_eq (n : Number) : writeNumber n =
    (if n.negative then ['-'] else []) ++
      (Nat.toDigits 10 n.whole ++ (fractionText n.fraction ++ exponentText n.exponent)) := by
  obtain ⟨negative, whole, fraction, exponent⟩ := n
  cases fraction <;> cases exponent <;>
    simp [writeNumber, fractionText, exponentText]

/-- A run of digits in front of something else is taken whole. -/
theorem takeWhile_isDigit {ds rest : List Char} (hds : ∀ d ∈ ds, d.isDigit = true)
    (hrest : ∀ c ∈ rest.head?, c.isDigit = false) : (ds ++ rest).takeWhile Char.isDigit = ds := by
  rw [List.takeWhile_append_of_pos hds]
  cases rest with
  | nil => exact List.append_nil ds
  | cons c cs =>
      have hc : c.isDigit = false := hrest c rfl
      rw [List.takeWhile_cons_of_neg (by simp [hc]), List.append_nil]

theorem isDigit_toDigits {n : Nat} : ∀ d ∈ Nat.toDigits 10 n, d.isDigit = true :=
  fun _ => Nat.isDigit_of_mem_toDigits (by decide) (by decide)

theorem val_digitValue_digitChar {n : Nat} (h : n < 10) :
    (digitValue (Nat.digitChar n)).val = n := by
  rw [digitValue, Nat.toNat_digitChar_sub_48_of_lt_ten h]
  exact Nat.mod_eq_of_lt h

/-- Digits are read as the number that they were written for. -/
theorem digitsValue_toDigits (n : Nat) : digitsValue (Nat.toDigits 10 n) = n := by
  induction n using Nat.strongRecOn with
  | ind n ih =>
      by_cases hsmall : n < 10
      · rw [Nat.toDigits_of_lt_base hsmall]
        simpa [digitsValue] using val_digitValue_digitChar hsmall
      · have hfront := ih (n / 10) (by omega)
        rw [digitsValue] at hfront
        rw [Nat.toDigits_of_base_le (by decide) (by omega), digitsValue, List.foldl_append, hfront,
          List.foldl_cons, List.foldl_nil, val_digitValue_digitChar (Nat.mod_lt n (by decide))]
        omega

/-- No number but zero is written with a zero in front. -/
theorem toDigits_leading (n : Nat) :
    Nat.toDigits 10 n = ['0'] ∨ ∃ d ds, d ≠ '0' ∧ Nat.toDigits 10 n = d :: ds := by
  induction n using Nat.strongRecOn with
  | ind n ih =>
      by_cases hzero : n = 0
      · exact .inl (by rw [hzero, Nat.toDigits_zero])
      by_cases hsmall : n < 10
      · exact .inr ⟨_, [], mt Nat.digitChar_eq_zero.1 hzero, Nat.toDigits_of_lt_base hsmall⟩
      rw [Nat.toDigits_of_base_le (by decide) (by omega)]
      rcases ih (n / 10) (by omega) with hfront | ⟨d, ds, hd, hfront⟩
      · -- A number of several digits has something in front of the last one.
        have hvalue := digitsValue_toDigits (n / 10)
        rw [hfront] at hvalue
        have hnone : n / 10 = 0 := hvalue.symm
        omega
      · exact .inr ⟨d, ds ++ _, hd, by rw [hfront, List.cons_append]⟩

theorem exists_toDigits_eq_cons (n : Nat) :
    ∃ d ds, d.isDigit = true ∧ Nat.toDigits 10 n = d :: ds := by
  cases h : Nat.toDigits 10 n with
  | nil => exact absurd h Nat.toDigits_ne_nil
  | cons d ds =>
      have hmem : d ∈ Nat.toDigits 10 n := by simp [h]
      exact ⟨d, ds, isDigit_toDigits d hmem, rfl⟩

theorem exponentSign_digit {c : Char} (hc : c.isDigit = true) (cs : List Char) :
    exponentSign (c :: cs) = (false, c :: cs) := by
  unfold exponentSign
  split
  · next heq => cases heq; cases hc
  · next heq => cases heq; cases hc
  · rfl

theorem Token.read?_digit {c : Char} (hc : c.isDigit = true) (cs : List Char) :
    Token.read? (c :: cs) = (unsigned? false (c :: cs)).map fun p => (.num p.1, p.2) := by
  unfold Token.read?
  split
  case h_13 => rfl
  all_goals
    next heq => cases heq <;> cases hc

section Written

variable {rest : List Char}

theorem integerPart?_written (n : Nat) (hrest : ∀ c ∈ rest.head?, c.isDigit = false) :
    integerPart? (Nat.toDigits 10 n ++ rest) = some (Nat.toDigits 10 n, rest) := by
  rw [integerPart?, takeWhile_isDigit isDigit_toDigits hrest]
  rcases toDigits_leading n with hn | ⟨d, ds, hd, hn⟩
  · rw [hn]
    rfl
  · rw [hn]
    split
    · next h => cases h
    · next h => cases h; exact absurd rfl hd
    · rw [List.drop_left]

theorem fractionPart?_written (fraction : List (Fin 10))
    (hrest : ∀ c ∈ rest.head?, c.isDigit = false ∧ c ≠ '.') :
    ∃ ds, ds.map digitValue = fraction ∧
      fractionPart? (fractionText fraction ++ rest) = some (ds, rest) := by
  cases fraction with
  | nil =>
      refine ⟨[], rfl, ?_⟩
      cases rest with
      | nil => rfl
      | cons c cs =>
          have hc : c ≠ '.' := (hrest c rfl).2
          unfold fractionPart? fractionText
          rw [List.nil_append]
          split
          · next heq => cases heq; exact absurd rfl hc
          · rfl
  | cons d ds =>
      have hds : ∀ c ∈ (d :: ds).map fun d => Nat.digitChar d.val, c.isDigit = true := by
        simp [Nat.isDigit_digitChar]
      refine ⟨(d :: ds).map fun d => Nat.digitChar d.val, ?_, ?_⟩
      · rw [List.map_map]
        refine (List.map_congr_left fun d _ => ?_).trans (List.map_id _)
        exact Fin.ext (val_digitValue_digitChar d.isLt)
      · rw [fractionText, List.cons_append, fractionPart?,
          takeWhile_isDigit hds fun c hc => (hrest c hc).1]
        · rw [List.map_cons]
          simp only [List.drop_left]
        · exact List.cons_ne_nil d ds

theorem exponentPart?_written (exponent : Option Int) (hrest : endsNumber rest = true) :
    exponentPart? (exponentText exponent ++ rest) = some (exponent, rest) := by
  cases exponent with
  | none =>
      cases rest with
      | nil => rfl
      | cons c cs =>
          simp only [endsNumber, Bool.not_eq_true', Bool.or_eq_false_iff] at hrest
          exact if_neg (by simp [hrest])
  | some e =>
      have hdigit : ∀ c ∈ rest.head?, c.isDigit = false := by
        cases rest with
        | nil => simp
        | cons c cs =>
            simp only [endsNumber, Bool.not_eq_true', Bool.or_eq_false_iff] at hrest
            simp [hrest]
      obtain ⟨d, ds, hd, hdigits⟩ := exists_toDigits_eq_cons e.natAbs
      have hsign :
          exponentSign ((if e < 0 then ['-'] else []) ++ Nat.toDigits 10 e.natAbs ++ rest) =
            (decide (e < 0), Nat.toDigits 10 e.natAbs ++ rest) := by
        by_cases hneg : e < 0
        · rw [if_pos hneg, decide_eq_true hneg]
          rfl
        · rw [if_neg hneg, decide_eq_false hneg, hdigits]
          exact exponentSign_digit hd (ds ++ rest)
      have hvalue : (if decide (e < 0) = true then
          -(digitsValue (Nat.toDigits 10 e.natAbs) : Int)
          else digitsValue (Nat.toDigits 10 e.natAbs)) = e := by
        rw [digitsValue_toDigits]
        by_cases hneg : e < 0
        · rw [if_pos (decide_eq_true hneg)]
          omega
        · rw [if_neg (by simpa using hneg)]
          omega
      rw [exponentText, List.cons_append, List.cons_append, exponentPart?_cons rfl, hsign,
        takeWhile_isDigit isDigit_toDigits hdigit]
      rw [hdigits] at hvalue ⊢
      simp only [List.drop_left, hvalue]

/-- Neither the digits behind the point nor those in front of it go on with an exponent. -/
theorem head_exponentText (exponent : Option Int) (hrest : endsNumber rest = true) :
    ∀ c ∈ (exponentText exponent ++ rest).head?, c.isDigit = false ∧ c ≠ '.' := by
  cases exponent with
  | some e => simp [exponentText]
  | none =>
      cases rest with
      | nil => simp [exponentText]
      | cons c cs =>
          simp only [endsNumber, Bool.not_eq_true', Bool.or_eq_false_iff, beq_eq_false_iff_ne]
            at hrest
          simp [exponentText, hrest]

theorem head_fractionText (fraction : List (Fin 10)) (exponent : Option Int)
    (hrest : endsNumber rest = true) :
    ∀ c ∈ (fractionText fraction ++ (exponentText exponent ++ rest)).head?, c.isDigit = false := by
  cases fraction with
  | cons d ds => simp [fractionText]
  | nil => exact fun c hc => (head_exponentText exponent hrest c hc).1

/-- A number without its sign is read back as it was written. -/
theorem unsigned?_written (n : Number) (hrest : endsNumber rest = true) :
    unsigned? n.negative (Nat.toDigits 10 n.whole ++
      (fractionText n.fraction ++ exponentText n.exponent) ++ rest) = some (n, rest) := by
  obtain ⟨ds, hds, hfraction⟩ :=
    fractionPart?_written n.fraction (head_exponentText n.exponent hrest)
  have hwhole := integerPart?_written n.whole (head_fractionText n.fraction n.exponent hrest)
  have hexponent := exponentPart?_written n.exponent hrest
  simp only [unsigned?, List.append_assoc, hwhole, hfraction, hexponent, Option.bind_eq_bind,
    Option.bind_some, digitsValue_toDigits, hds, Option.pure_def]

/-- A number is one word in front of anything that does not go on with it. -/
theorem Token.read?_writeNumber (n : Number) (hrest : endsNumber rest = true) :
    Token.read? (writeNumber n ++ rest) = some (.num n, rest) := by
  have hread := unsigned?_written n hrest
  rw [writeNumber_eq]
  cases hsign : n.negative with
  | true =>
      rw [hsign] at hread
      exact congrArg (Option.map fun p => (Token.num p.1, p.2)) hread
  | false =>
      rw [hsign] at hread
      obtain ⟨d, ds, hd, hdigits⟩ := exists_toDigits_eq_cons n.whole
      rw [hdigits] at hread ⊢
      refine (Token.read?_digit hd _).trans ?_
      exact congrArg (Option.map fun p => (Token.num p.1, p.2)) hread

end Written

end Json
end Neatness
