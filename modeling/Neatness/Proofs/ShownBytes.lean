import Neatness.Proofs.FileTree

/-!
# What is shown for bytes

A path need not be a text, but something is shown for it.  A character of one byte is shown only
where that byte stands: neither a longer character nor a broken one is ever taken for it.

* `utf8EncodeChar_eq` and `eq_of_mem_utf8EncodeChar` say where the byte of such a character stands in
  a text.
* `Wide` is a character under way that has more than one byte, and `wide_of_tail?` says that every
  character of more bytes is wide from its first byte on.
* `step_of_mem_charsFrom` is what one byte does, and `mem_of_mem_charsFrom` follows the reading of
  bytes that are no text.
* `mem_of_mem_toShown` is the statement for everything that is shown.
-/

namespace Neatness
namespace Utf8

/-! ## Bytes that are a text -/

theorem ofText_eq_flatMap (s : String) : ofText s = s.toList.flatMap String.utf8EncodeChar := by
  rw [ofText, String.toUTF8, ← String.utf8Encode_toList, List.utf8Encode]
  simp

section

variable {c : Char} (hc : c.toNat < 0x80)

include hc

/-- A character of one byte is that byte. -/
theorem utf8EncodeChar_eq : String.utf8EncodeChar c = [UInt8.ofNat c.toNat] := by
  rw [String.utf8EncodeChar]
  exact if_pos (Nat.le_of_lt_succ hc)

/-- No byte of a longer character is one of a character of one byte. -/
theorem eq_of_mem_utf8EncodeChar {d : Char}
    (h : UInt8.ofNat c.toNat ∈ String.utf8EncodeChar d) : d = c := by
  have hvalue : c.toNat = c.val.toNat := rfl
  have hvalid : d.val.toNat < 0x110000 := by
    have hchar := d.valid
    simp only [UInt32.isValidChar, Nat.isValidChar] at hchar
    omega
  unfold String.utf8EncodeChar at h
  simp only at h
  split at h
  · rw [List.mem_singleton] at h
    have hbyte := congrArg UInt8.toNat h
    rw [UInt8.toNat_ofNat', UInt8.toNat_ofNat'] at hbyte
    apply Char.ext
    apply UInt32.toNat_inj.1
    omega
  · -- The bytes of the longer forms all have the highest bit.
    repeat' split at h
    all_goals
      simp only [List.mem_cons, List.not_mem_nil, or_false, ← UInt8.toNat_inj,
        UInt8.toNat_ofNat'] at h
      omega

theorem mem_ofText {s : String} (h : c ∈ s.toList) : UInt8.ofNat c.toNat ∈ ofText s := by
  rw [ofText_eq_flatMap, List.mem_flatMap]
  refine ⟨c, h, ?_⟩
  rw [utf8EncodeChar_eq hc]
  exact List.mem_singleton_self _

end

/-! ## Bytes that are none -/

theorem toNat_ofNat {n : Nat} (h : n.isValidChar) : (Char.ofNat n).toNat = n := by
  rw [Char.ofNat, dif_pos h]
  rfl

/-- A character under way, with its bits so far, that stands for more than one byte whatever
follows. -/
structure Wide (bits owed : Nat) (low high : UInt8) : Prop where
  low_ge : 0x80 ≤ low.toNat
  high_le : high.toNat ≤ 0xBF
  /-- The bits are many enough, or the next byte adds what is missing. -/
  bits_ge : 2 ≤ bits ∨ 2 ≤ owed ∧ 2 ≤ bits * 0x40 + low.toNat % 0x40

/-- A first byte that others follow starts such a character. -/
theorem wide_of_tail? {b low high : UInt8} {n : Nat} (h : tail? b = some (n + 1, low, high)) :
    Wide (leadBits b (n + 1)) (n + 1) low high := by
  unfold tail? at h
  simp only [UInt8.lt_iff_toNat_lt, ← UInt8.toNat_inj, UInt8.toNat_ofNat] at h
  -- The ranges of first bytes, each with the number of bytes owed and the range of the next one.
  split at h
  · cases h
  split at h
  · cases h
  split at h
  · cases h
    exact ⟨by decide, by decide, .inl (show 2 ≤ b.toNat % 0x20 by omega)⟩
  split at h
  · cases h
    exact ⟨by decide, by decide, .inr ⟨by decide, Nat.le_add_left_of_le (by decide)⟩⟩
  split at h
  · cases h
    refine ⟨by decide, by decide, .inl (show 2 ≤ b.toNat % 0x10 by omega)⟩
  split at h
  · cases h
    refine ⟨by decide, by decide, .inr ⟨by decide, ?_⟩⟩
    show 2 ≤ b.toNat % 0x10 * 0x40 + 0x80 % 0x40
    omega
  split at h
  · cases h
    exact ⟨by decide, by decide, .inr ⟨by decide, Nat.le_add_left_of_le (by decide)⟩⟩
  split at h
  · cases h
    refine ⟨by decide, by decide, .inr ⟨by decide, ?_⟩⟩
    show 2 ≤ b.toNat % 0x08 * 0x40 + 0x80 % 0x40
    omega
  split at h
  · cases h
    refine ⟨by decide, by decide, .inl (show 2 ≤ b.toNat % 0x08 by omega)⟩
  · cases h

/-- With the next byte the bits are enough. -/
theorem Wide.bits_next {bits owed : Nat} {low high b : UInt8} (h : Wide bits owed low high)
    (hlow : low ≤ b) (hhigh : b ≤ high) : 2 ≤ bits * 0x40 + b.toNat % 0x40 := by
  obtain ⟨hge, hle, hbits⟩ := h
  rw [UInt8.le_iff_toNat_le] at hlow hhigh
  omega

/-- The last byte of a wide character makes it a character that is not of one byte. -/
theorem Wide.ofNat_ne {bits owed : Nat} {low high : UInt8} (h : Wide bits owed low high)
    (howed : owed ≤ 1) {c : Char} (hpos : 0 < c.toNat) (hc : c.toNat < 0x80) (digit : Nat) :
    Char.ofNat (bits * 0x40 + digit) ≠ c := by
  rintro rfl
  have hbits : 2 ≤ bits := h.bits_ge.resolve_right fun hmore => by omega
  by_cases hvalid : (bits * 0x40 + digit).isValidChar
  · rw [toNat_ofNat hvalid] at hc
    omega
  · rw [Char.ofNat, dif_neg hvalid] at hpos
    exact absurd hpos (by decide)

/-- The character under way, if there is one, is wide. -/
def AllWide (pending : Option (Nat × Nat × UInt8 × UInt8)) : Prop :=
  ∀ p ∈ pending, Wide p.1 p.2.1 p.2.2.1 p.2.2.2

theorem allWide_none : AllWide none :=
  fun _ hp => by cases hp

theorem allWide_some {bits owed : Nat} {low high : UInt8} :
    AllWide (some (bits, owed, low, high)) ↔ Wide bits owed low high := by
  simp [AllWide]

theorem charsFrom_none_cons (b : UInt8) (bs : List UInt8) :
    charsFrom none (b :: bs) = match tail? b with
      | none => none :: charsFrom none bs
      | some (0, _, _) => some (Char.ofNat b.toNat) :: charsFrom none bs
      | some (n + 1, low, high) => charsFrom (some (leadBits b (n + 1), n + 1, low, high)) bs := by
  rw [charsFrom]
  rfl

/-- A byte that is not the next one ends the character under way, and is read as a first byte. -/
theorem charsFrom_some_cons (bits owed : Nat) (low high b : UInt8) (bs : List UInt8) :
    charsFrom (some (bits, owed, low, high)) (b :: bs) =
      if low ≤ b ∧ b ≤ high then
        if owed ≤ 1 then some (Char.ofNat (bits * 0x40 + b.toNat % 0x40)) :: charsFrom none bs
        else charsFrom (some (bits * 0x40 + b.toNat % 0x40, owed - 1, 0x80, 0xBF)) bs
      else none :: charsFrom none (b :: bs) := by
  rw [charsFrom_none_cons, charsFrom]
  simp only [Bool.and_eq_true, decide_eq_true_eq]
  split
  · rfl
  · rcases tail? b with _ | ⟨_ | n, low', high'⟩ <;> rfl

/-- The first byte is the character of one byte, or the character is read behind it. -/
theorem fresh_step {c : Char} {b : UInt8} {bs : List UInt8} (h : some c ∈ charsFrom none (b :: bs)) :
    UInt8.ofNat c.toNat = b ∨ ∃ next, AllWide next ∧ some c ∈ charsFrom next bs := by
  rw [charsFrom_none_cons] at h
  split at h
  · exact .inr ⟨none, allWide_none, (List.mem_cons.1 h).resolve_left (by simp)⟩
  · rcases List.mem_cons.1 h with h | h
    · have hb : c.toNat = b.toNat := by
        have hbyte := b.toNat_lt
        rw [Option.some.inj h, toNat_ofNat (.inl (by omega))]
      exact .inl (by rw [hb, UInt8.ofNat_toNat])
    · exact .inr ⟨none, allWide_none, h⟩
  · next htail => exact .inr ⟨_, allWide_some.2 (wide_of_tail? htail), h⟩

section

variable {c : Char} (hpos : 0 < c.toNat) (hc : c.toNat < 0x80)

include hpos hc

/-- A byte read with wide characters under way is the character of one byte, or leaves wide ones
under way. -/
theorem step_of_mem_charsFrom {pending : Option (Nat × Nat × UInt8 × UInt8)} {b : UInt8}
    {bs : List UInt8} (hpending : AllWide pending) (h : some c ∈ charsFrom pending (b :: bs)) :
    UInt8.ofNat c.toNat = b ∨ ∃ next, AllWide next ∧ some c ∈ charsFrom next bs := by
  cases pending with
  | none => exact fresh_step h
  | some p =>
      obtain ⟨bits, owed, low, high⟩ := p
      have hwide := allWide_some.1 hpending
      rw [charsFrom_some_cons] at h
      split at h
      · next hrange =>
        split at h
        · next howed =>
          rcases List.mem_cons.1 h with h | h
          · exact absurd (Option.some.inj h).symm (hwide.ofNat_ne howed hpos hc _)
          · exact .inr ⟨none, allWide_none, h⟩
        · have hnext : Wide (bits * 0x40 + b.toNat % 0x40) (owed - 1) 0x80 0xBF :=
            ⟨by decide, by decide, .inl (hwide.bits_next hrange.1 hrange.2)⟩
          exact .inr ⟨_, allWide_some.2 hnext, h⟩
      · -- The character under way is broken off, and the byte is read as a first one.
        exact fresh_step ((List.mem_cons.1 h).resolve_left (by simp))

/-- A character of one byte is read where that byte stands. -/
theorem mem_of_mem_charsFrom {pending : Option (Nat × Nat × UInt8 × UInt8)} {bytes : List UInt8}
    (hpending : AllWide pending) (h : some c ∈ charsFrom pending bytes) :
    UInt8.ofNat c.toNat ∈ bytes := by
  induction bytes generalizing pending with
  | nil => cases pending <;> simp [charsFrom] at h
  | cons b bs ih =>
      obtain hb | ⟨next, hnext, hbehind⟩ := step_of_mem_charsFrom hpos hc hpending h
      · exact hb ▸ List.mem_cons_self
      · exact List.mem_cons_of_mem b (ih hnext hbehind)

/-! ## Everything that is shown -/

/-- A character of one byte that is shown for some bytes is one of them. -/
theorem mem_of_mem_toShown {bytes : List UInt8} (h : c ∈ (toShown bytes).toList) :
    UInt8.ofNat c.toNat ∈ bytes := by
  unfold toShown at h
  split at h
  · next s hs =>
    rw [← toText?_eq_some_iff.1 hs]
    exact mem_ofText hc h
  · rw [String.toList_ofList, List.mem_map] at h
    obtain ⟨o, ho, hshown⟩ := h
    cases o with
    | some d =>
        obtain rfl : d = c := hshown
        exact mem_of_mem_charsFrom hpos hc allWide_none ho
    | none =>
        -- The replacement character has more than one byte.
        obtain rfl : '\ufffd' = c := hshown
        exact absurd hc (by decide)

end

end Utf8
end Neatness
