import Mathlib.Data.List.Induction
import Neatness.Proofs.LoopBody

/-!
# Where blocks end

A block opens with a brace and ends where as many braces have been closed as opened since.

* `closeOf` is the end of a block, told by counting braces alone, block by block.
* `openBlocks` are the blocks that are open behind a text, as a stack.  `openBlocks_excess` says how
  many braces are missing for each of them, and `mem_openBlocks_iff` that these are the blocks that
  have not ended.
* `mem_openBlocks_iff_lt_closeOf` joins the two: a place lies in a block exactly if the block is
  open in front of it.
-/

namespace Neatness
namespace LoopBody

/-! ## Places of a character -/

/-- The offsets of a character, in the text that starts at `offset`. -/
def offsetsOf (c : Char) (offset : Nat) : List Char → List Nat
  | [] => []
  | d :: cs =>
    if d = c then offset :: offsetsOf c (offset + d.utf8Size) cs
    else offsetsOf c (offset + d.utf8Size) cs

section Offsets

variable {c : Char} {offset b : Nat} {cs : List Char}

theorem offsetsOf_append (c : Char) (offset : Nat) (cs ds : List Char) :
    offsetsOf c offset (cs ++ ds) =
      offsetsOf c offset cs ++ offsetsOf c (offset + Text.byteLength cs) ds := by
  induction cs generalizing offset with
  | nil => rfl
  | cons d cs ih =>
      rw [List.cons_append, offsetsOf, offsetsOf, ih, Text.byteLength_cons, Nat.add_assoc]
      split <;> rfl

theorem mem_offsetsOf_iff :
    b ∈ offsetsOf c offset cs ↔
      ∃ front rest, cs = front ++ c :: rest ∧ b = offset + Text.byteLength front := by
  induction cs generalizing offset with
  | nil => simp [offsetsOf]
  | cons d cs ih =>
      rw [offsetsOf]
      constructor
      · intro h
        by_cases hd : d = c
        · rw [if_pos hd] at h
          rcases List.mem_cons.1 h with rfl | h
          · exact ⟨[], cs, by rw [hd]; rfl, rfl⟩
          · obtain ⟨front, rest, rfl, rfl⟩ := ih.1 h
            exact ⟨d :: front, rest, rfl, by rw [Text.byteLength_cons, Nat.add_assoc]⟩
        · rw [if_neg hd] at h
          obtain ⟨front, rest, rfl, rfl⟩ := ih.1 h
          exact ⟨d :: front, rest, rfl, by rw [Text.byteLength_cons, Nat.add_assoc]⟩
      · rintro ⟨front, rest, heq, rfl⟩
        cases front with
        | nil =>
            rw [if_pos (List.cons.inj heq).1]
            exact List.mem_cons_self
        | cons e front =>
            obtain ⟨rfl, rfl⟩ := List.cons.inj heq
            have hlater : offset + Text.byteLength (d :: front) =
                offset + d.utf8Size + Text.byteLength front := by
              rw [Text.byteLength_cons, Nat.add_assoc]
            have hmem := ih.2 ⟨front, rest, rfl, hlater⟩
            split
            · exact List.mem_cons_of_mem offset hmem
            · exact hmem

theorem offsetsOf_bounds (h : b ∈ offsetsOf c offset cs) :
    offset ≤ b ∧ b < offset + Text.byteLength cs := by
  obtain ⟨front, rest, rfl, rfl⟩ := mem_offsetsOf_iff.1 h
  have hsize := c.utf8Size_pos
  rw [Text.byteLength_append, Text.byteLength_cons]
  omega

theorem offsetsOf_pairwise (c : Char) (offset : Nat) (cs : List Char) :
    (offsetsOf c offset cs).Pairwise (· < ·) := by
  induction cs generalizing offset with
  | nil => exact .nil
  | cons d cs ih =>
      have hsize := d.utf8Size_pos
      rw [offsetsOf]
      split
      · refine List.pairwise_cons.2 ⟨fun b hb => ?_, ih _⟩
        have hbounds := offsetsOf_bounds hb
        omega
      · exact ih _

end Offsets

/-! ## Counting braces -/

/-- How often a character stands at the offsets from `first` to `last`. -/
def countWithin (c : Char) (text : List Char) (first last : Nat) : Nat :=
  (offsetsOf c 0 text).countP fun b => decide (first ≤ b ∧ b ≤ last)

/-- How often a character stands at the offsets from `first` on. -/
def countFrom (c : Char) (text : List Char) (first : Nat) : Nat :=
  (offsetsOf c 0 text).countP fun b => decide (first ≤ b)

/-- From one offset to another, as many blocks open as close. -/
def Balanced (text : List Char) (first last : Nat) : Prop :=
  countWithin openBrace text first last = countWithin closeBrace text first last

instance (text : List Char) (first last : Nat) : Decidable (Balanced text first last) :=
  inferInstanceAs (Decidable (_ = _))

/-- Where a block ends: at the first offset behind its brace up to which as many blocks open as
close, or else with the text. -/
def closeOf (text : List Char) (o : Nat) : Nat :=
  ((List.range (Text.byteLength text)).find? fun x => decide (o < x ∧ Balanced text o x)).getD
    (Text.byteLength text)

section Counts

variable {c d : Char} {front rest : List Char} {first last : Nat}

/-- What stands behind the last offset does not count. -/
theorem countWithin_append (h : last < Text.byteLength front) :
    countWithin c (front ++ rest) first last = countWithin c front first last := by
  have hbehind : (offsetsOf c (0 + Text.byteLength front) rest).countP
      (fun b => decide (first ≤ b ∧ b ≤ last)) = 0 := by
    rw [List.countP_eq_zero]
    intro b hb
    have hbounds := offsetsOf_bounds hb
    simp only [decide_eq_true_eq]
    omega
  rw [countWithin, offsetsOf_append, List.countP_append, hbehind, Nat.add_zero]
  rfl

theorem balanced_append_iff (h : last < Text.byteLength front) :
    Balanced (front ++ rest) first last ↔ Balanced front first last := by
  rw [Balanced, Balanced, countWithin_append h, countWithin_append h]

/-- Up to the last character, all that comes counts. -/
theorem countWithin_concat (h : Text.byteLength front ≤ last) :
    countWithin c (front ++ [d]) first last = countFrom c (front ++ [d]) first := by
  rw [countWithin, countFrom]
  apply List.countP_congr
  intro b hb
  have hle : b ≤ last := by
    rw [offsetsOf_append] at hb
    rcases List.mem_append.1 hb with hb | hb
    · have hbounds := offsetsOf_bounds hb
      omega
    · rw [offsetsOf] at hb
      split at hb
      · rw [List.mem_singleton.1 hb]
        omega
      · cases hb
  simp only [decide_eq_true_eq]
  omega

theorem countFrom_concat (h : first ≤ Text.byteLength front) :
    countFrom c (front ++ [d]) first = countFrom c front first + if d = c then 1 else 0 := by
  rw [countFrom, offsetsOf_append, List.countP_append, countFrom]
  congr 1
  rw [offsetsOf, offsetsOf, Nat.zero_add]
  split
  · simp [h]
  · rfl

theorem countFrom_byteLength (c : Char) (front : List Char) :
    countFrom c front (Text.byteLength front) = 0 := by
  rw [countFrom, List.countP_eq_zero]
  intro b hb
  have hbounds := offsetsOf_bounds hb
  simp only [decide_eq_true_eq]
  omega

/-- The numbers of braces tell whether it is balanced at the last character. -/
theorem balanced_at_iff (h : Text.byteLength front ≤ last)
    (hlast : last < Text.byteLength front + d.utf8Size) :
    Balanced (front ++ d :: rest) first last ↔
      countFrom openBrace (front ++ [d]) first = countFrom closeBrace (front ++ [d]) first := by
  have hsplit : front ++ d :: rest = (front ++ [d]) ++ rest := by rw [List.append_assoc]; rfl
  have hlength : last < Text.byteLength (front ++ [d]) := by
    rwa [Text.byteLength_concat]
  rw [hsplit, balanced_append_iff hlength, Balanced, countWithin_concat h, countWithin_concat h]

end Counts

/-! ## The stack -/

/-- The open blocks behind a character, innermost first. -/
def blocksAfter (offset : Nat) (c : Char) (blocks : List Nat) : List Nat :=
  if c = openBrace then offset :: blocks
  else if c = closeBrace then blocks.tail
  else blocks

/-- The open blocks behind a text that starts at `offset` inside of `blocks`. -/
def openBlocksFrom (offset : Nat) (blocks : List Nat) : List Char → List Nat
  | [] => blocks
  | c :: cs => openBlocksFrom (offset + c.utf8Size) (blocksAfter offset c blocks) cs

/-- The offsets of the blocks that are open behind a text, innermost first. -/
def openBlocks (text : List Char) : List Nat :=
  openBlocksFrom 0 [] text

theorem openBlocksFrom_append (offset : Nat) (blocks : List Nat) (cs ds : List Char) :
    openBlocksFrom offset blocks (cs ++ ds) =
      openBlocksFrom (offset + Text.byteLength cs) (openBlocksFrom offset blocks cs) ds := by
  induction cs generalizing offset blocks with
  | nil => rfl
  | cons c cs ih =>
      rw [List.cons_append, openBlocksFrom, openBlocksFrom, ih, Text.byteLength_cons,
        Nat.add_assoc]

theorem openBlocks_append (cs ds : List Char) :
    openBlocks (cs ++ ds) = openBlocksFrom (Text.byteLength cs) (openBlocks cs) ds := by
  rw [openBlocks, openBlocksFrom_append, Nat.zero_add]
  rfl

theorem openBlocks_concat (front : List Char) (c : Char) :
    openBlocks (front ++ [c]) = blocksAfter (Text.byteLength front) c (openBlocks front) := by
  rw [openBlocks_append]
  rfl

/-- Behind the brace of an open block one brace more is opened than closed for each of the open
blocks inside, and one for itself. -/
theorem openBlocks_excess {front : List Char} {i o : Nat} (h : (openBlocks front)[i]? = some o) :
    o < Text.byteLength front ∧
      countFrom openBrace front o = countFrom closeBrace front o + (i + 1) := by
  induction front using List.reverseRecOn generalizing i with
  | nil => cases h
  | append_singleton front c ih =>
      have hsize := c.utf8Size_pos
      have hne : closeBrace ≠ openBrace := by decide
      rw [openBlocks_concat, blocksAfter] at h
      rw [Text.byteLength_concat]
      by_cases hopen : c = openBrace
      · rw [if_pos hopen] at h
        have hother : c ≠ closeBrace := by
          rw [hopen]
          exact hne.symm
        cases i with
        | zero =>
            obtain rfl := Option.some.inj h
            rw [countFrom_concat (Nat.le_refl _), countFrom_concat (Nat.le_refl _),
              countFrom_byteLength, countFrom_byteLength, if_pos hopen, if_neg hother]
            omega
        | succ i =>
            obtain ⟨hlt, hcount⟩ := ih h
            rw [countFrom_concat (by omega), countFrom_concat (by omega), if_pos hopen,
              if_neg hother]
            omega
      · rw [if_neg hopen] at h
        by_cases hclose : c = closeBrace
        · rw [if_pos hclose, List.getElem?_tail] at h
          obtain ⟨hlt, hcount⟩ := ih h
          rw [countFrom_concat (by omega), countFrom_concat (by omega), if_neg hopen,
            if_pos hclose]
          omega
        · rw [if_neg hclose] at h
          obtain ⟨hlt, hcount⟩ := ih h
          rw [countFrom_concat (by omega), countFrom_concat (by omega), if_neg hopen,
            if_neg hclose]
          omega

theorem lt_of_mem_openBlocks {front : List Char} {o : Nat} (h : o ∈ openBlocks front) :
    o < Text.byteLength front ∧ countFrom closeBrace front o < countFrom openBrace front o := by
  obtain ⟨i, hi⟩ := List.getElem?_of_mem h
  obtain ⟨hlt, hcount⟩ := openBlocks_excess hi
  omega

/-- A block opens here, or was open before. -/
theorem mem_of_mem_blocksAfter {offset o : Nat} {c : Char} {blocks : List Nat}
    (h : o ∈ blocksAfter offset c blocks) : c = openBrace ∧ o = offset ∨ o ∈ blocks := by
  rw [blocksAfter] at h
  split at h
  · rename_i hopen
    exact (List.mem_cons.1 h).imp (⟨hopen, ·⟩) id
  · split at h
    · exact .inr (List.mem_of_mem_tail h)
    · exact .inr h

theorem mem_offsetsOf_concat {c d : Char} {front : List Char} {b : Nat} :
    b ∈ offsetsOf c 0 (front ++ [d]) ↔
      b ∈ offsetsOf c 0 front ∨ d = c ∧ b = Text.byteLength front := by
  rw [offsetsOf_append, List.mem_append, offsetsOf, offsetsOf, Nat.zero_add]
  by_cases hd : d = c <;> simp [hd]

/-- The blocks that are open behind a text are those that have not ended in it. -/
theorem mem_openBlocks_iff {front : List Char} {o : Nat} :
    o ∈ openBlocks front ↔
      o ∈ offsetsOf openBrace 0 front ∧
        ∀ x, o < x → x < Text.byteLength front → ¬Balanced front o x := by
  induction front using List.reverseRecOn with
  | nil => simp [openBlocks, openBlocksFrom, offsetsOf]
  | append_singleton front c ih =>
      have hsize := c.utf8Size_pos
      rw [mem_offsetsOf_concat, Text.byteLength_concat]
      constructor
      · intro h
        have hcount := (lt_of_mem_openBlocks h).2
        rw [openBlocks_concat] at h
        have hbefore := mem_of_mem_blocksAfter h
        refine ⟨?_, fun x hox hx hbalanced => ?_⟩
        · exact hbefore.symm.imp (fun hmem => (ih.1 hmem).1) id
        · by_cases hfront : x < Text.byteLength front
          · rcases hbefore with ⟨-, rfl⟩ | hmem
            · omega
            · exact (ih.1 hmem).2 x hox hfront ((balanced_append_iff hfront).1 hbalanced)
          · rw [balanced_at_iff (by omega) hx] at hbalanced
            omega
      · rintro ⟨hmem, hopen⟩
        rw [openBlocks_concat, blocksAfter]
        rcases hmem with hmem | ⟨rfl, rfl⟩
        · have hlt : o < Text.byteLength front := by
            have hbounds := offsetsOf_bounds hmem
            omega
          have hin : o ∈ openBlocks front := by
            refine ih.2 ⟨hmem, fun x hox hx hbalanced => ?_⟩
            exact hopen x hox (by omega) ((balanced_append_iff hx).2 hbalanced)
          split
          · exact List.mem_cons_of_mem _ hin
          · rename_i hother
            split
            · rename_i hclose
              -- Here the innermost block ends, so that it is another one.
              obtain ⟨inner, outer, hblocks⟩ := List.exists_cons_of_ne_nil (List.ne_nil_of_mem hin)
              rw [hblocks] at hin ⊢
              rcases List.mem_cons.1 hin with rfl | hin
              · refine absurd ?_ (hopen (Text.byteLength front) hlt (by omega))
                have hexcess := (openBlocks_excess (i := 0) (by rw [hblocks]; rfl)).2
                rw [balanced_at_iff (Nat.le_refl _) (by omega), countFrom_concat (by omega),
                  countFrom_concat (by omega), if_neg hother, if_pos hclose]
                omega
              · exact hin
            · exact hin
        · rw [if_pos rfl]
          exact List.mem_cons_self

/-! ## The end of a block -/

/-- A place comes before the end of a block exactly if the block has not ended up to there. -/
theorem lt_closeOf_iff {text : List Char} {o p : Nat} (hp : p < Text.byteLength text) :
    p < closeOf text o ↔ ∀ x, o < x → x ≤ p → ¬Balanced text o x := by
  unfold closeOf
  cases hfind : (List.range (Text.byteLength text)).find? fun x =>
      decide (o < x ∧ Balanced text o x) with
  | none =>
      rw [List.find?_eq_none] at hfind
      refine iff_of_true hp fun x hox hx hbalanced => ?_
      exact hfind x (List.mem_range.2 (by omega)) (decide_eq_true ⟨hox, hbalanced⟩)
  | some y =>
      obtain ⟨hy, -, hleast⟩ := List.find?_range_eq_some.1 hfind
      obtain ⟨hoy, hbalanced⟩ := of_decide_eq_true hy
      rw [Option.getD_some]
      constructor
      · intro hpy x hox hx hearlier
        have hnot := hleast x (by omega)
        simp [hox, hearlier] at hnot
      · intro hopen
        rcases Nat.lt_or_ge p y with hlt | hge
        · exact hlt
        · exact absurd hbalanced (hopen y hoy hge)

/-- A place that is no closing brace lies in a block exactly if the block is open in front of it. -/
theorem mem_openBlocks_iff_lt_closeOf {front : List Char} {c : Char} (hc : c ≠ closeBrace)
    (rest : List Char) {o : Nat} :
    o ∈ openBlocks front ↔
      o ∈ offsetsOf openBrace 0 (front ++ c :: rest) ∧ o < Text.byteLength front ∧
        Text.byteLength front < closeOf (front ++ c :: rest) o := by
  have hsize := c.utf8Size_pos
  have hend : Text.byteLength front < Text.byteLength (front ++ c :: rest) := by
    rw [Text.byteLength_append, Text.byteLength_cons]
    omega
  rw [lt_closeOf_iff hend]
  constructor
  · intro h
    obtain ⟨hmem, hopen⟩ := mem_openBlocks_iff.1 h
    obtain ⟨hlt, hcount⟩ := lt_of_mem_openBlocks h
    refine ⟨?_, hlt, fun x hox hx hbalanced => ?_⟩
    · rw [offsetsOf_append]
      exact List.mem_append_left _ hmem
    · by_cases hfront : x < Text.byteLength front
      · exact hopen x hox hfront ((balanced_append_iff hfront).1 hbalanced)
      · rw [balanced_at_iff (by omega) (by omega), countFrom_concat (by omega),
          countFrom_concat (by omega), if_neg hc] at hbalanced
        omega
  · rintro ⟨hmem, hlt, hopen⟩
    rw [offsetsOf_append, List.mem_append] at hmem
    refine mem_openBlocks_iff.2 ⟨?_, fun x hox hx hbalanced => ?_⟩
    · rcases hmem with hmem | hmem
      · exact hmem
      · have hbounds := offsetsOf_bounds hmem
        omega
    · exact hopen x hox (by omega) ((balanced_append_iff hx).2 hbalanced)

end LoopBody
end Neatness
