import Neatness.Proofs.Places
import Neatness.Server.Range

/-!
# Places as an editor counts them

An editor is told where a problem is in UTF-16 units, while a report counts characters.  Both are
names of one place: the row in front of it is measured in another unit.

The editor reads a position in its own way.  For it a carriage return ends a line as well, alone or
together with the newline behind it, and a column behind the end of a line is the end of the line.

* `lineAt_ofLines` and `unitLength_le_byteLength` are about the lines of a text and their length.
* `Range.ofLocation_location` is the range of a place.
* `Position.find?` is what an editor finds at a position, and `find?_start_iff` says when this is the
  place that was meant.
* `Range.ranges_mark_places` joins a byte offset, the place it is taken for, and the range shown, and
  `Range.ofOffset_longestLine_and_loneReturn` shows what its two exceptions are.
-/

namespace Neatness
namespace Server

/-- The range that an editor is shown for a byte offset. -/
def Range.ofOffset (text : List Char) (offset : Nat) : Range :=
  Range.ofLocation text (Location.ofOffset text offset)

/-- The columns that a range takes in front of some text: those of its first character, or one
column where the line ends. -/
def widthAt : List Char → Nat
  | [] => 1
  | c :: _ => if c = '\n' then 1 else units c

/-- A text that is a single line, and has as many units as columns can count. -/
def FillsColumns (text : List Char) : Prop :=
  '\n' ∉ text ∧ unitLength text + 1 = 2 ^ 32

/-! ## How an editor reads a position -/

/-- What follows the first line of a text, if anything ends that line. -/
def nextLine? : List Char → Option (List Char)
  | [] => none
  | c :: cs =>
    if c = '\n' then some cs
    else if c = '\r' then some (if cs.head? = some '\n' then cs.tail else cs)
    else nextLine? cs

/-- A text from one of its lines on. -/
def fromLine? : Nat → List Char → Option (List Char)
  | 0, cs => some cs
  | n + 1, cs => (nextLine? cs).bind (fromLine? n)

/-- A text without as many units of its first line, or without all of that line if it has fewer. -/
def fromColumn : Nat → List Char → List Char
  | _, [] => []
  | n, c :: cs => if n = 0 ∨ c = '\n' ∨ c = '\r' then c :: cs else fromColumn (n - units c) cs

/-- The text that an editor finds behind a position. -/
def Position.find? (text : List Char) (p : Position) : Option (List Char) :=
  (fromLine? p.line.toNat text).map (fromColumn p.character.toNat)

/-- A newline stands right behind every carriage return. -/
def ReturnsPaired : List Char → Prop
  | [] => True
  | c :: cs => (c = '\r' → cs.head? = some '\n') ∧ ReturnsPaired cs

/-! ## Lines and units -/

/-- Behind whole lines comes the line that their number names. -/
theorem lineAt_ofLines {lines : List (List Char)} (h : ∀ line ∈ lines, '\n' ∉ line)
    (cs : List Char) :
    lineAt (Text.ofLines lines ++ cs) lines.length = cs.takeWhile (· != '\n') := by
  induction lines with
  | nil => rfl
  | cons line lines ih =>
      obtain ⟨hline, hlater⟩ := List.forall_mem_cons.1 h
      rw [Text.ofLines, List.append_assoc, List.cons_append, List.length_cons, lineAt,
        Text.dropWhile_ne_append hline, List.dropWhile_cons_of_neg (by decide)]
      exact ih hlater

theorem units_pos (c : Char) : 0 < units c := by
  unfold units
  split <;> decide

/-- A character takes at least as many bytes as units. -/
theorem units_le_utf8Size (c : Char) : units c ≤ c.utf8Size := by
  have hsize := c.utf8Size_pos
  unfold units
  split
  · exact hsize
  · rename_i hlarge
    -- A character of two units is none of the small ones that take a single byte.
    by_contra hless
    have hone : c.utf8Size = 1 := by omega
    have hsmall : c.toNat ≤ 0x7f := UInt32.le_iff_toNat_le.1 (Char.utf8Size_eq_one_iff.1 hone)
    omega

theorem unitLength_le_byteLength (cs : List Char) : unitLength cs ≤ Text.byteLength cs := by
  induction cs with
  | nil => exact Nat.le_refl 0
  | cons c cs ih => exact Nat.add_le_add (units_le_utf8Size c) ih

theorem unitLength_eq_sum (cs : List Char) : unitLength cs = (cs.map units).sum := by
  induction cs with
  | nil => rfl
  | cons c cs ih => rw [unitLength, ih, List.map_cons, List.sum_cons]

theorem length_le_ofLines (lines : List (List Char)) :
    lines.length ≤ Text.byteLength (Text.ofLines lines) := by
  induction lines with
  | nil => exact Nat.le_refl 0
  | cons line lines ih =>
      have hsize := '\n'.utf8Size_pos
      rw [Text.ofLines, Text.byteLength_append, Text.byteLength_cons, List.length_cons]
      omega

theorem widthAt_le {cs : List Char} (h : cs ≠ []) : widthAt cs ≤ Text.byteLength cs := by
  cases cs with
  | nil => exact absurd rfl h
  | cons c cs =>
      have hsize := c.utf8Size_pos
      have hunits := units_le_utf8Size c
      rw [widthAt, Text.byteLength_cons]
      split <;> omega

/-! ## The range of a place -/

section Places

variable {text : List Char}

/-- The range of a place starts behind its lines and its row. -/
theorem Range.ofLocation_location (p : Text.Place text) :
    Range.ofLocation text p.location =
      ⟨⟨.ofNat p.lines.length, .ofNat (unitLength p.row)⟩,
        ⟨.ofNat p.lines.length, .ofNat (unitLength p.row + widthAt p.rest)⟩⟩ := by
  have hline : lineAt text p.lines.length = p.row ++ p.rest.takeWhile (· != '\n') := by
    rw [← Text.takeWhile_ne_append p.row_unbroken, ← lineAt_ofLines p.lines_unbroken,
      ← List.append_assoc, ← p.text_eq]
  simp only [Range.ofLocation, Text.Place.location, Nat.add_sub_cancel, hline, List.take_left,
    List.drop_left]
  -- What is left of the line is empty at a newline, as it is at the end of the text.
  cases p.rest with
  | nil => rfl
  | cons c rest =>
      by_cases hnl : c = '\n'
      · simp [widthAt, hnl]
      · simp [widthAt, hnl]

/-- Lines and units are no more than bytes. -/
theorem lines_add_units_le (p : Text.Place text) :
    p.lines.length + unitLength p.row ≤ p.offset := by
  rw [Text.Place.offset, Text.Place.front, Text.byteLength_append]
  exact Nat.add_le_add (length_le_ofLines p.lines) (unitLength_le_byteLength p.row)

/-- In front of a character a range ends within the text. -/
theorem units_add_width_le {p : Text.Place text} (h : p.rest ≠ []) :
    unitLength p.row + widthAt p.rest ≤ Text.byteLength text := by
  have hfront := lines_add_units_le p
  have hwidth := widthAt_le h
  have htext := congrArg Text.byteLength p.text_eq_front
  rw [Text.byteLength_append] at htext
  rw [Text.Place.offset] at hfront
  omega

/-- In a text of less than 4 GiB no line and no column is too large for 32 bits. -/
theorem toNat_start (hsize : Text.byteLength text < 2 ^ 32) (p : Text.Place text) :
    (Range.ofLocation text p.location).start.line.toNat = p.lines.length ∧
      (Range.ofLocation text p.location).start.character.toNat = unitLength p.row := by
  have hbound := lines_add_units_le p
  have hoffset := p.isBoundary.le
  have hlines : p.lines.length < 2 ^ 32 := by omega
  have hunits : unitLength p.row < 2 ^ 32 := by omega
  rw [Range.ofLocation_location]
  exact ⟨UInt32.toNat_ofNat_of_lt' hlines, UInt32.toNat_ofNat_of_lt' hunits⟩

/-- Places that an editor is shown alike are the same. -/
theorem eq_of_start_eq (hsize : Text.byteLength text < 2 ^ 32) {p q : Text.Place text}
    (h : (Range.ofLocation text p.location).start = (Range.ofLocation text q.location).start) :
    p = q := by
  obtain ⟨hline, hcolumn⟩ := toNat_start hsize p
  obtain ⟨hline', hcolumn'⟩ := toNat_start hsize q
  rw [h] at hline hcolumn
  have hmark : p.mark units = q.mark units := by
    rw [Text.Place.mark, Text.Place.mark, ← unitLength_eq_sum, ← unitLength_eq_sum, ← hline,
      ← hline', ← hcolumn, ← hcolumn']
  exact Text.Place.eq_of_mark_eq units_pos hmark

/-- At the end of its first line a place has the whole text in its row. -/
theorem eq_row_of_nil {p : Text.Place text} (hlines : p.lines = []) (hrest : p.rest = []) :
    text = p.row := by
  have htext := p.text_eq
  rwa [hlines, hrest, List.append_nil] at htext

/-- In a text of less than 4 GiB a range ends behind what it marks, but for the end of a line that
fills all columns. -/
theorem toNat_stop_character (hsize : Text.byteLength text < 2 ^ 32) {p : Text.Place text}
    (h : ¬(FillsColumns text ∧ p.rest = [])) :
    (Range.ofLocation text p.location).stop.character.toNat = unitLength p.row + widthAt p.rest := by
  have hfits : unitLength p.row + widthAt p.rest < 2 ^ 32 := by
    by_cases hrest : p.rest = []
    · by_contra hover
      -- The row has as many units as the text can have bytes, so that no line is in front of it.
      have hbound := lines_add_units_le p
      have hoffset := p.isBoundary.le
      rw [hrest, widthAt] at hover
      have hlines : p.lines = [] := List.eq_nil_of_length_eq_zero (by omega)
      have htext := eq_row_of_nil hlines hrest
      have hunits := congrArg unitLength htext
      exact h ⟨⟨fun hnl => p.row_unbroken (htext ▸ hnl), by omega⟩, hrest⟩
    · exact Nat.lt_of_le_of_lt (units_add_width_le hrest) hsize
  rw [Range.ofLocation_location]
  exact UInt32.toNat_ofNat_of_lt' hfits

/-- Behind a line that fills all columns the next column is taken for the first one. -/
theorem stop_character_eq_zero {p : Text.Place text} (hfills : FillsColumns text)
    (hrest : p.rest = []) : (Range.ofLocation text p.location).stop.character = 0 := by
  obtain ⟨hunbroken, hunits⟩ := hfills
  have htext : Text.ofLines p.lines ++ p.row = Text.ofLines [] ++ text := by
    rw [← List.append_nil (Text.ofLines p.lines ++ p.row), ← hrest, ← p.text_eq]
    rfl
  obtain ⟨-, hrow⟩ := Text.ofLines_append_inj p.lines_unbroken (by simp) p.row_unbroken hunbroken
    htext
  rw [Range.ofLocation_location, hrow, hrest, widthAt, hunits]
  rfl

/-! ## What an editor finds -/

theorem ReturnsPaired.of_append {cs ds : List Char} (h : ReturnsPaired (cs ++ ds)) :
    ReturnsPaired ds := by
  induction cs with
  | nil => exact h
  | cons c cs ih => exact ih h.2

theorem ReturnsPaired.append {cs ds : List Char} (hcs : ReturnsPaired cs) (hds : ReturnsPaired ds) :
    ReturnsPaired (cs ++ ds) := by
  induction cs with
  | nil => exact hds
  | cons c cs ih =>
      refine ⟨fun hreturn => ?_, ih hcs.2⟩
      show (cs ++ ds).head? = some '\n'
      rw [List.head?_append, hcs.1 hreturn, Option.some_or]

theorem returnsPaired_of_not_mem {cs : List Char} (h : '\r' ∉ cs) : ReturnsPaired cs := by
  induction cs with
  | nil => exact trivial
  | cons c cs ih =>
      rw [List.mem_cons, not_or] at h
      exact ⟨fun hreturn => absurd hreturn.symm h.1, ih h.2⟩

/-- A row has no newlines, so its carriage returns would have none behind them. -/
theorem ReturnsPaired.not_mem {row : List Char} (h : ReturnsPaired row) (hrow : '\n' ∉ row) :
    '\r' ∉ row := by
  induction row with
  | nil => exact List.not_mem_nil
  | cons c row ih =>
      rw [List.mem_cons, not_or] at hrow ⊢
      refine ⟨fun hreturn => ?_, ih h.2 hrow.2⟩
      exact hrow.2 (List.mem_of_mem_head? (h.1 hreturn.symm))

/-- If a newline follows every carriage return, an editor's lines are those of the text. -/
theorem nextLine?_line {line cs : List Char} (hline : '\n' ∉ line)
    (h : ReturnsPaired (line ++ '\n' :: cs)) (rest : List Char) :
    nextLine? (line ++ '\n' :: rest) = some rest := by
  induction line with
  | nil => rfl
  | cons c line ih =>
      rw [List.mem_cons, not_or] at hline
      rw [List.cons_append, nextLine?, if_neg (Ne.symm hline.1)]
      by_cases hreturn : c = '\r'
      · -- The newline behind it is the one that ends the line.
        have hhead := h.1 hreturn
        cases line with
        | nil => rw [if_pos hreturn]; rfl
        | cons d line => exact absurd (Option.some.inj hhead).symm (List.ne_of_not_mem_cons hline.2)
      · rw [if_neg hreturn]
        exact ih hline.2 h.2

theorem fromLine?_ofLines {lines : List (List Char)} (hlines : ∀ line ∈ lines, '\n' ∉ line)
    {row : List Char} (h : ReturnsPaired (Text.ofLines lines ++ row)) (rest : List Char) :
    fromLine? lines.length (Text.ofLines lines ++ rest) = some rest := by
  induction lines with
  | nil => rfl
  | cons line lines ih =>
      obtain ⟨hline, hlater⟩ := List.forall_mem_cons.1 hlines
      rw [Text.ofLines, List.append_assoc, List.cons_append] at h ⊢
      rw [List.length_cons, fromLine?, nextLine?_line hline h, Option.bind_some]
      exact ih hlater h.of_append.2

theorem fromColumn_row {row : List Char} (hnl : '\n' ∉ row) (hreturn : '\r' ∉ row)
    (rest : List Char) : fromColumn (unitLength row) (row ++ rest) = rest := by
  induction row with
  | nil =>
      cases rest with
      | nil => rfl
      | cons c rest => rw [List.nil_append, fromColumn, unitLength, if_pos (.inl rfl)]
  | cons c row ih =>
      rw [List.mem_cons, not_or] at hnl hreturn
      have hpos := units_pos c
      rw [List.cons_append, fromColumn, unitLength, if_neg, Nat.add_sub_cancel_left]
      · exact ih hnl.2 hreturn.2
      · rintro (hzero | rfl | rfl)
        · omega
        · exact hnl.1 rfl
        · exact hreturn.1 rfl

/-- An editor passes at most one newline with a line.  If it passes one, then no carriage return
alone has ended the line. -/
theorem exists_of_nextLine? {cs ds : List Char} (h : nextLine? cs = some ds) :
    ∃ passed, cs = passed ++ ds ∧ passed.count '\n' ≤ 1 ∧
      (passed.count '\n' = 1 → ReturnsPaired passed) := by
  induction cs with
  | nil => cases h
  | cons c cs ih =>
      rw [nextLine?] at h
      split_ifs at h with hnl hreturn hpair
      · obtain rfl := Option.some.inj h
        subst hnl
        exact ⟨['\n'], rfl, by decide, fun _ => returnsPaired_of_not_mem (by decide)⟩
      · obtain rfl := Option.some.inj h
        obtain ⟨later, rfl⟩ := List.head?_eq_some_iff.1 hpair
        subst hreturn
        refine ⟨['\r', '\n'], rfl, by decide, fun _ => ⟨fun _ => rfl, ?_⟩⟩
        exact returnsPaired_of_not_mem (by decide)
      · obtain rfl := Option.some.inj h
        subst hreturn
        exact ⟨['\r'], rfl, by decide, fun h => absurd h (by decide)⟩
      · obtain ⟨passed, rfl, hcount, hpaired⟩ := ih h
        refine ⟨c :: passed, rfl, ?_, fun hone => ⟨fun h => absurd h hreturn, ?_⟩⟩
        · rwa [List.count_cons_of_ne hnl]
        · exact hpaired (by rwa [List.count_cons_of_ne hnl] at hone)

theorem exists_of_fromLine? {n : Nat} {cs ds : List Char} (h : fromLine? n cs = some ds) :
    ∃ passed, cs = passed ++ ds ∧ passed.count '\n' ≤ n ∧
      (passed.count '\n' = n → ReturnsPaired passed) := by
  induction n generalizing cs with
  | zero =>
      obtain rfl := Option.some.inj h
      exact ⟨[], rfl, Nat.le_refl 0, fun _ => trivial⟩
  | succ n ih =>
      obtain ⟨next, hnext, hrest⟩ := Option.bind_eq_some_iff.1 h
      obtain ⟨line, rfl, hone, hline⟩ := exists_of_nextLine? hnext
      obtain ⟨passed, rfl, hcount, hpassed⟩ := ih hrest
      refine ⟨line ++ passed, (List.append_assoc _ _ _).symm, ?_, fun hall => ?_⟩
      · rw [List.count_append]
        omega
      · rw [List.count_append] at hall
        exact (hline (by omega)).append (hpassed (by omega))

theorem exists_append_fromColumn (n : Nat) (cs : List Char) :
    ∃ passed, cs = passed ++ fromColumn n cs ∧ '\n' ∉ passed ∧ '\r' ∉ passed := by
  induction cs generalizing n with
  | nil => exact ⟨[], rfl, List.not_mem_nil, List.not_mem_nil⟩
  | cons c cs ih =>
      rw [fromColumn]
      split_ifs with hstops
      · exact ⟨[], rfl, List.not_mem_nil, List.not_mem_nil⟩
      · simp only [not_or] at hstops
        obtain ⟨passed, hcs, hnl, hreturn⟩ := ih (n - units c)
        refine ⟨c :: passed, by rw [List.cons_append, ← hcs], ?_, ?_⟩
        · simpa [hnl] using Ne.symm hstops.2.1
        · simpa [hreturn] using Ne.symm hstops.2.2

/-- An editor finds a place exactly if a newline follows every carriage return in front of it. -/
theorem find?_start_iff (hsize : Text.byteLength text < 2 ^ 32) (p : Text.Place text) :
    (Range.ofLocation text p.location).start.find? text = some p.rest ↔ ReturnsPaired p.front := by
  obtain ⟨hline, hcolumn⟩ := toNat_start hsize p
  rw [Position.find?, hline, hcolumn]
  constructor
  · intro hfound
    obtain ⟨cs, hcs, hrest⟩ := Option.map_eq_some_iff.1 hfound
    obtain ⟨passed, htext, -, hpassed⟩ := exists_of_fromLine? hcs
    obtain ⟨more, hmore, hnl, hreturn⟩ := exists_append_fromColumn (unitLength p.row) cs
    -- What the editor has passed is all that is in front of the place, newlines included.
    have hfront : p.front = passed ++ more := by
      rw [hmore, hrest, ← List.append_assoc] at htext
      exact List.append_cancel_right (p.text_eq_front.symm.trans htext)
    have hcount : passed.count '\n' = p.lines.length := by
      rw [← p.count_front, hfront, List.count_append, List.count_eq_zero_of_not_mem hnl,
        Nat.add_zero]
    rw [hfront]
    exact (hpassed hcount).append (returnsPaired_of_not_mem hreturn)
  · intro hpaired
    have hrow := hpaired.of_append.not_mem p.row_unbroken
    have hlines : fromLine? p.lines.length text = some (p.row ++ p.rest) := by
      rw [← fromLine?_ofLines p.lines_unbroken hpaired, ← List.append_assoc, ← p.text_eq]
    rw [hlines, Option.map_some, fromColumn_row p.row_unbroken hrow]

end Places

/-- The range of an offset starts at the place that the offset is taken for: behind as many lines as
there are newlines in front of it, and behind as many units as its row has.  It ends on the same
line, behind the character of the place, or one column further on where the line ends; only at the
end of a line that fills all columns there is no further column.  Offsets are shown at one position
exactly if they have one location, and an editor finds the place at this position exactly if every
carriage return in front of it has a newline right behind it, in front of it too. -/
theorem Range.ranges_mark_places (text : List Char) (hsize : Text.byteLength text < 2 ^ 32)
    (offset : Nat) :
    ∃ p : Text.Place text,
      IsGreatest {b | Text.IsBoundary text b ∧ b ≤ min offset (Text.byteLength text)} p.offset ∧
      Location.ofOffset text offset = p.location ∧
      (ofOffset text offset).start.line.toNat = p.front.count '\n' ∧
      (ofOffset text offset).start.character.toNat = unitLength p.row ∧
      (ofOffset text offset).stop.line = (ofOffset text offset).start.line ∧
      (¬(FillsColumns text ∧ p.rest = []) →
        (ofOffset text offset).stop.character.toNat =
          (ofOffset text offset).start.character.toNat + widthAt p.rest) ∧
      (FillsColumns text ∧ p.rest = [] → (ofOffset text offset).stop.character = 0) ∧
      (∀ other, (ofOffset text other).start = (ofOffset text offset).start ↔
        Location.ofOffset text other = Location.ofOffset text offset) ∧
      ((ofOffset text offset).start.find? text = some p.rest ↔ ReturnsPaired p.front) := by
  obtain ⟨p, hgreatest, hp⟩ := Location.exists_place_ofOffset text offset
  have hrange : ofOffset text offset = Range.ofLocation text p.location := by rw [ofOffset, hp]
  obtain ⟨hline, hcolumn⟩ := toNat_start hsize p
  refine ⟨p, hgreatest, hp, ?_⟩
  rw [hrange]
  refine ⟨hline.trans p.count_front.symm, hcolumn, ?_, fun hroom => ?_,
    fun ⟨hfills, hrest⟩ => stop_character_eq_zero hfills hrest, fun other => ?_,
    find?_start_iff hsize p⟩
  · rw [Range.ofLocation_location]
  · rw [hcolumn, toNat_stop_character hsize hroom]
  · obtain ⟨q, -, hq⟩ := Location.exists_place_ofOffset text other
    rw [ofOffset, hq, hp]
    constructor
    · exact fun h => congrArg _ (eq_of_start_eq hsize h)
    · exact fun h => by rw [h]

/-- A call behind a line that ends with a carriage return and a newline, and behind characters of
four bytes and two units. -/
theorem Range.ranges_mark_places_wide :
    Text.byteLength "// 🎓\r\ns = \"😀\"; puts".toList < 2 ^ 32 ∧
    ∃ p : Text.Place "// 🎓\r\ns = \"😀\"; puts".toList,
      p.offset = 21 ∧ p.location = ⟨2, 10⟩ ∧ unitLength p.row = 10 ∧ p.rest = "puts".toList ∧
      ¬(FillsColumns "// 🎓\r\ns = \"😀\"; puts".toList ∧ p.rest = []) ∧
      (ofOffset "// 🎓\r\ns = \"😀\"; puts".toList 21).stop.character.toNat = 10 + widthAt p.rest ∧
      ReturnsPaired p.front := by
  have hsize : Text.byteLength "// 🎓\r\ns = \"😀\"; puts".toList < 2 ^ 32 := by decide
  have hcall : Text.IsBoundary "// 🎓\r\ns = \"😀\"; puts".toList 21 :=
    ⟨"// 🎓\r\ns = \"😀\"; ".toList, _, rfl, by decide⟩
  have hcolumn : (ofOffset "// 🎓\r\ns = \"😀\"; puts".toList 21).start.character.toNat = 10 := by
    decide
  have hfind : (ofOffset "// 🎓\r\ns = \"😀\"; puts".toList 21).start.find?
      "// 🎓\r\ns = \"😀\"; puts".toList = some "puts".toList := by decide
  obtain ⟨p, ⟨hp, hgreatest⟩, hlocation, -, hunits, -, hstop, -, -, hpaired⟩ :=
    ranges_mark_places _ hsize 21
  have hoffset : p.offset = 21 :=
    Nat.le_antisymm (Nat.le_min.1 hp.2).1 (hgreatest ⟨hcall, by decide⟩)
  have hrest : p.rest = "puts".toList := by
    have htext : "// 🎓\r\ns = \"😀\"; ".toList ++ "puts".toList = p.front ++ p.rest :=
      p.text_eq_front
    exact (Text.append_inj_of_byteLength htext.symm hoffset).2
  have hshort : ¬(FillsColumns "// 🎓\r\ns = \"😀\"; puts".toList ∧ p.rest = []) :=
    fun h => absurd (hrest.symm.trans h.2) (by decide)
  rw [hcolumn] at hunits hstop
  refine ⟨hsize, p, hoffset, ?_, hunits.symm, hrest, hshort, hstop hshort, ?_⟩
  · rw [← hlocation]
    decide
  · exact hpaired.1 (hfind.trans (congrArg some hrest.symm))

/-! ## Where the places are missed -/

theorem byteLength_replicate (n : Nat) : Text.byteLength (List.replicate n 'a') = n := by
  induction n with
  | zero => rfl
  | succ n ih =>
      rw [List.replicate_succ, Text.byteLength_cons, ih, Nat.add_comm]
      rfl

theorem unitLength_replicate (n : Nat) : unitLength (List.replicate n 'a') = n := by
  induction n with
  | zero => rfl
  | succ n ih =>
      rw [List.replicate_succ, unitLength, ih, Nat.add_comm]
      rfl

/-- The range at the end of a text that is one line. -/
theorem Range.ofOffset_replicate (n : Nat) :
    ofOffset (List.replicate n 'a') n = ⟨⟨0, .ofNat n⟩, ⟨0, .ofNat (n + 1)⟩⟩ := by
  have hunbroken : '\n' ∉ List.replicate n 'a' :=
    fun h => absurd (List.eq_of_mem_replicate h) (by decide)
  let p : Text.Place (List.replicate n 'a') :=
    ⟨[], List.replicate n 'a', [], by simp, hunbroken, (List.append_nil _).symm⟩
  have hoffset : p.offset = n := byteLength_replicate n
  have hlocation := Location.ofOffset_offset p
  rw [hoffset] at hlocation
  rw [ofOffset, hlocation, Range.ofLocation_location]
  show (⟨⟨.ofNat 0, .ofNat (unitLength (List.replicate n 'a'))⟩,
    ⟨.ofNat 0, .ofNat (unitLength (List.replicate n 'a') + 1)⟩⟩ : Range) = _
  rw [unitLength_replicate]
  rfl

/-- A line of as many letters as columns can count. -/
def longestLine : List Char :=
  List.replicate (2 ^ 32 - 1) 'a'

/-- The range at the end of a longest line is to reach one column further, but ends at the first
one.  And where a carriage return ends a line for the editor alone, the position shown for what
follows leads it to that carriage return. -/
theorem Range.ofOffset_longestLine_and_loneReturn :
    (Text.byteLength longestLine = 2 ^ 32 - 1 ∧
      (ofOffset longestLine (2 ^ 32 - 1)).start.character.toNat = 2 ^ 32 - 1 ∧
      (ofOffset longestLine (2 ^ 32 - 1)).stop.character = 0) ∧
    (Location.ofOffset "x = 1\rprint(1)\n".toList 6 = ⟨1, 7⟩ ∧
      (ofOffset "x = 1\rprint(1)\n".toList 6).start = ⟨0, 6⟩ ∧
      (ofOffset "x = 1\rprint(1)\n".toList 6).start.find? "x = 1\rprint(1)\n".toList =
        some "\rprint(1)\n".toList) := by
  refine ⟨?_, by decide, by decide, by decide⟩
  obtain ⟨n, hn⟩ : ∃ n, n = 2 ^ 32 - 1 := ⟨_, rfl⟩
  rw [longestLine, ← hn, byteLength_replicate, ofOffset_replicate]
  have hfits : n < 2 ^ 32 := by omega
  have hover : n + 1 = 2 ^ 32 := by omega
  refine ⟨rfl, UInt32.toNat_ofNat_of_lt' hfits, ?_⟩
  rw [hover]
  rfl

end Server
end Neatness
