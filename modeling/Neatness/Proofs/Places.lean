import Mathlib.Algebra.Ring.Nat
import Mathlib.Data.Prod.Lex
import Mathlib.Order.Bounds.Basic
import Neatness.Location
import Neatness.Proofs.Search

/-!
# Places of a text

What a line and a column mean.  A place cuts a text in two, and the part in front of the cut
consists of whole lines and the beginning of one more line.

* `Text.startsOf` are the offsets at which something starts, and `Text.first?_eq_some_iff_isLeast` says
  that a search finds the least of them.
* `Text.Place` is such a cut with its lines; `Place.offset` and `Place.location` are two names for it.
* `Place.exists_front` makes a place of every cut, and `Place.eq_of_offset_eq` says that there is one
  place at an offset.
* `Place.mark_lt_of_offset_lt` puts the places of a text in order, whatever the characters of a line
  are counted with.
* `Location.exists_place_ofOffset` is the place that an offset is taken for: the last one that is
  not behind it.
-/

namespace Neatness

/-- A location as a pair whose first component decides. -/
def Location.key (l : Location) : ℕ ×ₗ ℕ :=
  toLex (l.line, l.column)

namespace Text

/-- An offset between two characters, or at one of the two ends of a text. -/
def IsBoundary (text : List Char) (offset : Nat) : Prop :=
  ∃ front rest, text = front ++ rest ∧ offset = byteLength front

/-- Lines, each with the newline that ends it. -/
def ofLines : List (List Char) → List Char
  | [] => []
  | line :: lines => line ++ '\n' :: ofLines lines

/-- The offsets of a text at which something starts, told from what is in front and what follows. -/
def startsOf (P : (front rest : List Char) → Prop) (text : List Char) : Set Nat :=
  {b | ∃ front rest, text = front ++ rest ∧ b = byteLength front ∧ P front rest}

section Starts

variable {P : List Char → List Char → Prop} {probe : Probe} {text : List Char}

/-- A search for something finds the first place at which it starts. -/
theorem first?_eq_some_iff_isLeast (h : ∀ front rest, probe front.getLast? rest = true ↔ P front rest)
    {b : Nat} : first? probe text = some b ↔ IsLeast (startsOf P text) b := by
  have hpasses : ∀ offset, probe.Passes text offset ↔ offset ∈ startsOf P text := by
    intro offset
    simp only [Probe.Passes, startsOf, Set.mem_ofPred_eq, h]
  rw [first?_eq_some_iff, hpasses]
  exact and_congr_right fun _ => forall_congr' fun other => imp_congr_left (hpasses other)

/-- It finds a place if there is one. -/
theorem first?_isSome_iff_nonempty
    (h : ∀ front rest, probe front.getLast? rest = true ↔ P front rest) :
    (first? probe text).isSome = true ↔ (startsOf P text).Nonempty := by
  constructor
  · intro hsome
    obtain ⟨b, hb⟩ := Option.isSome_iff_exists.1 hsome
    exact ⟨b, ((first?_eq_some_iff_isLeast h).1 hb).1⟩
  · rintro ⟨-, front, rest, rfl, -, hstarts⟩
    have hprobe : probe (front.getLast?.or none) rest = true := by
      rw [Option.or_none]
      exact (h front rest).2 hstarts
    obtain ⟨b, hb, -⟩ := exists_firstFrom_le 0 hprobe
    rw [first?, hb]
    rfl

end Starts

theorem IsBoundary.le {text : List Char} {offset : Nat} (h : IsBoundary text offset) :
    offset ≤ byteLength text := by
  obtain ⟨front, rest, rfl, rfl⟩ := h
  rw [byteLength_append]
  exact Nat.le_add_right _ _

/-- What is in front of the first newline, and what is behind it. -/
theorem append_newline_inj {line other cs ds : List Char} (hline : '\n' ∉ line)
    (hother : '\n' ∉ other) (h : line ++ '\n' :: cs = other ++ '\n' :: ds) :
    line = other ∧ cs = ds := by
  have hfirst : ∀ {l : List Char}, '\n' ∉ l → ∀ more,
      (l ++ '\n' :: more).takeWhile (· != '\n') = l := by
    intro l hl more
    rw [takeWhile_ne_append hl, List.takeWhile_cons_of_neg (by decide), List.append_nil]
  obtain rfl : line = other := by rw [← hfirst hline cs, h, hfirst hother]
  exact ⟨rfl, (List.cons.inj (List.append_cancel_left h)).2⟩

theorem count_ofLines {lines : List (List Char)} (h : ∀ line ∈ lines, '\n' ∉ line) :
    (ofLines lines).count '\n' = lines.length := by
  induction lines with
  | nil => rfl
  | cons line lines ih =>
      obtain ⟨hline, hlines⟩ := List.forall_mem_cons.1 h
      rw [ofLines, List.count_append, List.count_cons_self, ih hlines,
        List.count_eq_zero_of_not_mem hline, List.length_cons, Nat.zero_add]

/-- A text has one division into lines that have ended and a line that has not. -/
theorem ofLines_append_inj {lines others : List (List Char)} {row other : List Char}
    (hlines : ∀ line ∈ lines, '\n' ∉ line) (hothers : ∀ line ∈ others, '\n' ∉ line)
    (hrow : '\n' ∉ row) (hother : '\n' ∉ other)
    (h : ofLines lines ++ row = ofLines others ++ other) : lines = others ∧ row = other := by
  induction lines generalizing others with
  | nil =>
      cases others with
      | nil => exact ⟨rfl, h⟩
      | cons l others =>
          -- A row has no newline, so it cannot begin with a whole line.
          have hrow' : row = ofLines (l :: others) ++ other := h
          exact absurd (by simp [hrow', ofLines]) hrow
  | cons line lines ih =>
      cases others with
      | nil =>
          have hother' : ofLines (line :: lines) ++ row = other := h
          exact absurd (by simp [← hother', ofLines]) hother
      | cons l others =>
          obtain ⟨hline, hlater⟩ := List.forall_mem_cons.1 hlines
          obtain ⟨hl, hmore⟩ := List.forall_mem_cons.1 hothers
          simp only [ofLines, List.append_assoc, List.cons_append] at h
          obtain ⟨rfl, htail⟩ := append_newline_inj hline hl h
          obtain ⟨rfl, rfl⟩ := ih hlater hmore htail
          exact ⟨rfl, rfl⟩

/-- Every text can be divided so. -/
theorem exists_ofLines_append (cs : List Char) :
    ∃ lines row, cs = ofLines lines ++ row ∧ (∀ line ∈ lines, '\n' ∉ line) ∧ '\n' ∉ row := by
  induction cs with
  | nil => exact ⟨[], [], rfl, by simp, by simp⟩
  | cons c cs ih =>
      obtain ⟨lines, row, rfl, hlines, hrow⟩ := ih
      by_cases hnl : c = '\n'
      · subst hnl
        exact ⟨[] :: lines, row, rfl, List.forall_mem_cons.2 ⟨by simp, hlines⟩, hrow⟩
      -- The character belongs to the first line, whether it has ended or not.
      cases lines with
      | nil => exact ⟨[], c :: row, rfl, by simp, by simp [Ne.symm hnl, hrow]⟩
      | cons line lines =>
          obtain ⟨hline, hlater⟩ := List.forall_mem_cons.1 hlines
          refine ⟨(c :: line) :: lines, row, rfl, List.forall_mem_cons.2 ⟨?_, hlater⟩, hrow⟩
          simp [Ne.symm hnl, hline]

/-- Dividing a text at its newlines gives back the lines that it was put together from. -/
theorem splitOn_ofLines_append {lines : List (List Char)} {row : List Char}
    (hlines : ∀ line ∈ lines, '\n' ∉ line) (hrow : '\n' ∉ row) :
    (ofLines lines ++ row).splitOn '\n' = lines ++ [row] := by
  induction lines with
  | nil => exact List.splitOn_eq_singleton hrow
  | cons line lines ih =>
      obtain ⟨hline, hlater⟩ := List.forall_mem_cons.1 hlines
      rw [ofLines, List.append_assoc, List.cons_append,
        List.splitOn_append_cons_self_of_not_mem hline, ih hlater, List.cons_append]

/-- A cut in a text: the lines in front of it that have ended, the part of its own line in front of
it, and all that follows. -/
@[ext]
structure Place (text : List Char) where
  /-- The lines that have ended, without their newlines. -/
  lines : List (List Char)
  /-- What stands on the same line in front of the cut. -/
  row : List Char
  /-- What follows. -/
  rest : List Char
  lines_unbroken : ∀ line ∈ lines, '\n' ∉ line
  row_unbroken : '\n' ∉ row
  text_eq : text = ofLines lines ++ row ++ rest

namespace Place

variable {text : List Char}

/-- All that stands in front of a place. -/
def front (p : Place text) : List Char :=
  ofLines p.lines ++ p.row

/-- The byte offset of a place. -/
def offset (p : Place text) : Nat :=
  byteLength p.front

/-- The line and the column of a place, counted from one. -/
def location (p : Place text) : Location :=
  ⟨p.lines.length + 1, p.row.length + 1⟩

/-- The line of a place, and its column when a character counts as much as `width` says. -/
def mark (width : Char → Nat) (p : Place text) : ℕ ×ₗ ℕ :=
  toLex (p.lines.length, (p.row.map width).sum)

theorem text_eq_front (p : Place text) : text = p.front ++ p.rest :=
  p.text_eq

theorem isBoundary (p : Place text) : IsBoundary text p.offset :=
  ⟨p.front, p.rest, p.text_eq_front, rfl⟩

theorem count_front (p : Place text) : p.front.count '\n' = p.lines.length := by
  rw [front, List.count_append, count_ofLines p.lines_unbroken,
    List.count_eq_zero_of_not_mem p.row_unbroken, Nat.add_zero]

/-! ## Cuts and places -/

/-- Every cut of a text is a place. -/
theorem exists_front {front rest : List Char} (h : text = front ++ rest) :
    ∃ p : Place text, p.front = front ∧ p.rest = rest := by
  obtain ⟨lines, row, rfl, hlines, hrow⟩ := exists_ofLines_append front
  exact ⟨⟨lines, row, rest, hlines, hrow, h⟩, rfl, rfl⟩

/-- There is one place at an offset. -/
theorem eq_of_offset_eq {p q : Place text} (h : p.offset = q.offset) : p = q := by
  -- The offset fixes the front, and the front has one division into lines.
  obtain ⟨hfront, hrest⟩ := append_inj_of_byteLength
    (p.text_eq_front.symm.trans q.text_eq_front) h
  obtain ⟨hlines, hrow⟩ := ofLines_append_inj p.lines_unbroken q.lines_unbroken
    p.row_unbroken q.row_unbroken hfront
  exact Place.ext hlines hrow hrest

theorem exists_offset {offset : Nat} (h : IsBoundary text offset) :
    ∃ p : Place text, p.offset = offset := by
  obtain ⟨front, rest, htext, rfl⟩ := h
  obtain ⟨p, rfl, -⟩ := exists_front htext
  exact ⟨p, rfl⟩

/-! ## The order of places -/

/-- Between two places there is some text. -/
theorem exists_between {p q : Place text} (h : p.offset < q.offset) :
    ∃ c mid, q.front = p.front ++ c :: mid ∧ p.rest = c :: (mid ++ q.rest) := by
  have htext := p.text_eq_front.symm.trans q.text_eq_front
  rcases List.append_eq_append_iff.1 htext with ⟨mid, hfront, hrest⟩ | ⟨mid, hfront, -⟩
  · cases mid with
    | nil =>
        rw [List.append_nil] at hfront
        rw [offset, offset, hfront] at h
        exact absurd h (Nat.lt_irrefl _)
    | cons c mid => exact ⟨c, mid, hfront, hrest⟩
  · -- The front of the later place would be the shorter one.
    rw [offset, offset, hfront, byteLength_append] at h
    omega

/-- A later place has a greater mark: either a line has ended in between, or the row has grown. -/
theorem mark_lt_of_offset_lt {width : Char → Nat} (hwidth : ∀ c, 0 < width c) {p q : Place text}
    (h : p.offset < q.offset) : p.mark width < q.mark width := by
  obtain ⟨c, mid, hfront, -⟩ := exists_between h
  rw [mark, mark, Prod.Lex.toLex_lt_toLex]
  by_cases hnl : '\n' ∈ c :: mid
  · left
    have hcount : q.lines.length = p.lines.length + (c :: mid).count '\n' := by
      rw [← p.count_front, ← q.count_front, hfront, List.count_append]
    have hpos := List.count_pos_iff.2 hnl
    omega
  · right
    -- What is in between has no newline: it only makes the row longer.
    have hgrown : ofLines p.lines ++ (p.row ++ c :: mid) = ofLines q.lines ++ q.row := by
      rw [← List.append_assoc]
      exact hfront.symm
    obtain ⟨hlines, hrow⟩ := ofLines_append_inj p.lines_unbroken q.lines_unbroken
      (by simpa [p.row_unbroken] using hnl) q.row_unbroken hgrown
    refine ⟨congrArg List.length hlines, ?_⟩
    show (p.row.map width).sum < (q.row.map width).sum
    have hc := hwidth c
    rw [← hrow, List.map_append, List.sum_append, List.map_cons, List.sum_cons]
    omega

/-- The mark tells a place from all others. -/
theorem eq_of_mark_eq {width : Char → Nat} (hwidth : ∀ c, 0 < width c) {p q : Place text}
    (h : p.mark width = q.mark width) : p = q := by
  apply eq_of_offset_eq
  rcases Nat.lt_trichotomy p.offset q.offset with hlt | heq | hlt
  · exact absurd h (mark_lt_of_offset_lt hwidth hlt).ne
  · exact heq
  · exact absurd h (mark_lt_of_offset_lt hwidth hlt).ne'

theorem mark_one (p : Place text) : p.mark (fun _ => 1) = toLex (p.lines.length, p.row.length) := by
  rw [mark, List.map_const', List.sum_replicate_nat, Nat.mul_one]

theorem key_lt_of_offset_lt {p q : Place text} (h : p.offset < q.offset) :
    p.location.key < q.location.key := by
  have hmark := mark_lt_of_offset_lt (fun _ => Nat.one_pos) h
  rw [mark_one, mark_one, Prod.Lex.toLex_lt_toLex] at hmark
  rw [Location.key, Location.key, Prod.Lex.toLex_lt_toLex]
  show p.lines.length + 1 < q.lines.length + 1 ∨
    p.lines.length + 1 = q.lines.length + 1 ∧ p.row.length + 1 < q.row.length + 1
  omega

theorem eq_of_location_eq {p q : Place text} (h : p.location = q.location) : p = q := by
  obtain ⟨hlines, hrow⟩ := Location.mk.inj h
  have hmark : p.mark (fun _ => 1) = q.mark fun _ => 1 := by
    rw [mark_one, mark_one, Nat.succ.inj hlines, Nat.succ.inj hrow]
  exact eq_of_mark_eq (fun _ => Nat.one_pos) hmark

end Place
end Text

/-! ## Where an offset leads -/

namespace Location

variable {text : List Char}

theorem foldl_advance_row {row : List Char} (h : '\n' ∉ row) (here : Location) :
    row.foldl advance here = ⟨here.line, here.column + row.length⟩ := by
  induction row generalizing here with
  | nil => rfl
  | cons c row ih =>
      rw [List.mem_cons, not_or] at h
      rw [List.foldl_cons, ih h.2, advance, if_neg (Ne.symm h.1), List.length_cons]
      show (⟨here.line, here.column + 1 + row.length⟩ : Location) = _
      rw [Nat.add_assoc, Nat.add_comm 1]

theorem foldl_advance_ofLines {lines : List (List Char)} (h : ∀ line ∈ lines, '\n' ∉ line)
    (line : Nat) :
    (Text.ofLines lines).foldl advance ⟨line, 1⟩ = ⟨line + lines.length, 1⟩ := by
  induction lines generalizing line with
  | nil => rfl
  | cons first lines ih =>
      obtain ⟨hfirst, hlines⟩ := List.forall_mem_cons.1 h
      rw [Text.ofLines, List.foldl_append, foldl_advance_row hfirst, List.foldl_cons, advance,
        if_pos rfl, ih hlines, List.length_cons]
      show (⟨line + 1 + lines.length, 1⟩ : Location) = _
      rw [Nat.add_assoc, Nat.add_comm 1]

/-- Walking over all that stands in front of a place ends at its location. -/
theorem foldl_advance_front (p : Text.Place text) : p.front.foldl advance ⟨1, 1⟩ = p.location := by
  rw [Text.Place.front, List.foldl_append, foldl_advance_ofLines p.lines_unbroken,
    foldl_advance_row p.row_unbroken, Text.Place.location, Nat.add_comm 1, Nat.add_comm 1]

/-- A walk passes as many characters as fit into its budget. -/
theorem exists_walk (here : Location) (bytes : Nat) (cs : List Char) :
    ∃ front rest, cs = front ++ rest ∧ walk here bytes cs = front.foldl advance here ∧
      Text.byteLength front ≤ bytes ∧
      ∀ c more, rest = c :: more → bytes < Text.byteLength front + c.utf8Size := by
  induction cs generalizing here bytes with
  | nil => exact ⟨[], [], rfl, rfl, Nat.zero_le _, by simp⟩
  | cons c cs ih =>
      rw [walk]
      by_cases hfits : c.utf8Size ≤ bytes
      · -- The walk goes on with what is left of its budget.
        obtain ⟨front, rest, rfl, hwalk, hle, hnext⟩ := ih (here.advance c) (bytes - c.utf8Size)
        refine ⟨c :: front, rest, rfl, ?_, ?_, fun d more hrest => ?_⟩
        · rw [if_pos hfits, hwalk, List.foldl_cons]
        · rw [Text.byteLength_cons]
          omega
        · have hlt := hnext d more hrest
          rw [Text.byteLength_cons]
          omega
      · refine ⟨[], c :: cs, rfl, ?_, Nat.zero_le _, fun d more hrest => ?_⟩
        · rw [if_neg hfits, List.foldl_nil]
        · obtain ⟨rfl, -⟩ := List.cons.inj hrest
          rw [Text.byteLength_nil]
          omega

/-- An offset is taken for the last place that is not behind it, and not behind the end. -/
theorem exists_place_ofOffset (text : List Char) (offset : Nat) :
    ∃ p : Text.Place text,
      IsGreatest {b | Text.IsBoundary text b ∧ b ≤ min offset (Text.byteLength text)} p.offset ∧
      ofOffset text offset = p.location := by
  obtain ⟨front, rest, htext, hwalk, hle, hnext⟩ := exists_walk ⟨1, 1⟩ offset text
  obtain ⟨p, rfl, rfl⟩ := Text.Place.exists_front htext
  refine ⟨p, ⟨⟨p.isBoundary, Nat.le_min.2 ⟨hle, p.isBoundary.le⟩⟩, ?_⟩, ?_⟩
  · rintro b ⟨hb, hbound⟩
    obtain ⟨q, rfl⟩ := Text.Place.exists_offset hb
    by_contra hbehind
    -- The character behind the walk lies in front of the later place, so it would have fitted.
    obtain ⟨c, mid, hfront, hmore⟩ := Text.Place.exists_between (Nat.lt_of_not_le hbehind)
    have hlt := hnext c (mid ++ q.rest) hmore
    have hsize : q.offset =
        Text.byteLength p.front + (c.utf8Size + Text.byteLength mid) := by
      rw [Text.Place.offset, hfront, Text.byteLength_append, Text.byteLength_cons]
    omega
  · rw [ofOffset, hwalk, foldl_advance_front]

/-- At a place an offset is taken for that place. -/
theorem ofOffset_offset (p : Text.Place text) : ofOffset text p.offset = p.location := by
  obtain ⟨q, hgreatest, hq⟩ := exists_place_ofOffset text p.offset
  have hle : q.offset ≤ p.offset := (Nat.le_min.1 hgreatest.1.2).1
  have hge : p.offset ≤ q.offset :=
    hgreatest.2 ⟨p.isBoundary, Nat.le_min.2 ⟨Nat.le_refl _, p.isBoundary.le⟩⟩
  rw [hq, Text.Place.eq_of_offset_eq (Nat.le_antisymm hle hge)]

/-- Later boundaries have later locations. -/
theorem key_ofOffset_strictMonoOn (text : List Char) :
    StrictMonoOn (fun b => (ofOffset text b).key) {b | Text.IsBoundary text b} := by
  rintro a ha b hb hlt
  obtain ⟨p, rfl⟩ := Text.Place.exists_offset ha
  obtain ⟨q, rfl⟩ := Text.Place.exists_offset hb
  show (ofOffset text p.offset).key < (ofOffset text q.offset).key
  rw [ofOffset_offset, ofOffset_offset]
  exact Text.Place.key_lt_of_offset_lt hlt

end Location
end Neatness
