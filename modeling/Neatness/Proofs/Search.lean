import Neatness.Text.Search

/-!
# Places that a search finds

Facts about `Text.first?` and `Text.occurrences` that do not depend on what is searched for.

* `byteLength_concat` and `append_inj_of_byteLength` are about the offsets of a text.
* `isPrefixOf_append_cons` and `drop_length_takeWhile` are about the start of a text, and
  `takeWhile_ne_append` and `dropWhile_ne_append` about what stands in front of a separator;
  `literal_andThen_wordEnd_eq_some_iff` is a whole word there.
* `le_of_firstFrom` bounds the place that is found first, and `first?_eq_some_iff` says that it is the
  least place that passes the test.
* `here_suffix_of_mem` and `start_add_of_mem` place an occurrence in its text,
  `exists_opens_of_mem` says what stands in front of it, and `pairwise_start` puts occurrences in
  order.
* `occurrencesFrom_eq_nil` is a text in which a form stands nowhere.
-/

namespace Neatness
namespace Text

/-! ## Offsets -/

theorem byteLength_concat (cs : List Char) (c : Char) :
    byteLength (cs ++ [c]) = byteLength cs + c.utf8Size := by
  rw [byteLength_append, byteLength_cons, byteLength_nil, Nat.add_zero]

/-- A text is split at an offset in one way only. -/
theorem append_inj_of_byteLength {front other cs ds : List Char} (h : front ++ cs = other ++ ds)
    (hlength : byteLength front = byteLength other) : front = other ∧ cs = ds := by
  induction front generalizing other with
  | nil =>
      cases other with
      | nil => exact ⟨rfl, h⟩
      | cons d other =>
          have hsize := d.utf8Size_pos
          rw [byteLength_nil, byteLength_cons] at hlength
          omega
  | cons c front ih =>
      cases other with
      | nil =>
          have hsize := c.utf8Size_pos
          rw [byteLength_nil, byteLength_cons] at hlength
          omega
      | cons d other =>
          obtain ⟨rfl, htail⟩ := List.cons.inj h
          rw [byteLength_cons, byteLength_cons] at hlength
          obtain ⟨rfl, hrest⟩ := ih htail (by omega)
          exact ⟨rfl, hrest⟩

/-! ## The start of a text -/

/-- A word stands at the start of a text exactly if it does so in front of a character that it does
not hold. -/
theorem isPrefixOf_append_cons {word : List Char} {c : Char} (h : c ∉ word)
    (cs rest : List Char) : word.isPrefixOf (cs ++ c :: rest) = word.isPrefixOf cs := by
  induction word generalizing cs with
  | nil => simp
  | cons w word ih =>
      rw [List.mem_cons, not_or] at h
      cases cs with
      | nil =>
          have hne : (w == c) = false := by simpa using Ne.symm h.1
          simp [List.isPrefixOf, hne]
      | cons d cs =>
          rw [List.cons_append, List.isPrefixOf, List.isPrefixOf, ih h.2]

theorem drop_length_takeWhile (p : Char → Bool) (cs : List Char) :
    cs.drop (cs.takeWhile p).length = cs.dropWhile p := by
  induction cs with
  | nil => rfl
  | cons c cs ih =>
      by_cases hc : p c = true
      · simpa [hc] using ih
      · simp [hc]

/-- What a run of a class ends at stays its end when more text follows. -/
theorem dropWhile_append_of_eq_cons {p : Char → Bool} {cs rest : List Char} {c : Char}
    (h : cs.dropWhile p = c :: rest) (more : List Char) :
    (cs ++ more).dropWhile p = c :: (rest ++ more) := by
  rw [List.dropWhile_append, h]
  rfl

/-- A run of a class ends in front of a character that is not of the class. -/
theorem dropWhile_append_cons {p : Char → Bool} {c : Char} (h : p c = false)
    (cs rest : List Char) : (cs ++ c :: rest).dropWhile p = cs.dropWhile p ++ c :: rest := by
  rw [List.dropWhile_append]
  split
  · rename_i hempty
    rw [List.isEmpty_iff.1 hempty]
    simp [h]
  · rfl

/-- A run of a class ends behind what is all of the class, if that is where something else stands. -/
theorem dropWhile_all_append {p : Char → Bool} {front : List Char} (h : ∀ d ∈ front, p d = true)
    {c : Char} (hc : p c = false) (rest : List Char) :
    (front ++ c :: rest).dropWhile p = c :: rest := by
  rw [List.dropWhile_append_of_pos h, List.dropWhile_cons_of_neg (by simp [hc])]

section Separator

variable {c : Char} {cs : List Char}

/-- What goes on up to a separator goes on behind a text without one. -/
theorem takeWhile_ne_append (h : c ∉ cs) (rest : List Char) :
    (cs ++ rest).takeWhile (· != c) = cs ++ rest.takeWhile (· != c) := by
  apply List.takeWhile_append_of_pos
  intro d hd
  exact bne_iff_ne.2 fun heq => h (heq ▸ hd)

theorem dropWhile_ne_append (h : c ∉ cs) (rest : List Char) :
    (cs ++ rest).dropWhile (· != c) = rest.dropWhile (· != c) := by
  apply List.dropWhile_append_of_pos
  intro d hd
  exact bne_iff_ne.2 fun heq => h (heq ▸ hd)

end Separator

/-- A form that starts with a word stands where the word does. -/
theorem prefix_of_literal_andThen {word cs : List Char} {form : Form} {n : Nat}
    (h : ((literal word).andThen form) cs = some n) : word <+: cs := by
  unfold Form.andThen literal at h
  split at h
  · cases h
  · rename_i hword
    simp only [Option.ite_none_right_eq_some] at hword
    exact List.isPrefixOf_iff_prefix.1 hword.1

/-- A word that has to end where it ends. -/
theorem literal_andThen_wordEnd_eq_some_iff {word cs : List Char} {closes : List Char → Bool}
    {n : Nat} :
    ((literal word).andThen (wordEnd closes)) cs = some n ↔
      ∃ rest, cs = word ++ rest ∧ closes rest = true ∧ n = word.length := by
  unfold Form.andThen literal wordEnd
  constructor
  · intro h
    by_cases hword : word.isPrefixOf cs = true
    · obtain ⟨rest, rfl⟩ := List.isPrefixOf_iff_prefix.1 hword
      simp only [hword, if_true, List.drop_left, Option.map_eq_some_iff,
        Option.ite_none_right_eq_some, Option.some.injEq] at h
      obtain ⟨z, ⟨hcloses, rfl⟩, rfl⟩ := h
      exact ⟨rest, rfl, hcloses, rfl⟩
    · simp [hword] at h
  · rintro ⟨rest, rfl, hcloses, rfl⟩
    have hword : word.isPrefixOf (word ++ rest) = true :=
      List.isPrefixOf_iff_prefix.2 (List.prefix_append word rest)
    simp [hword, hcloses]

/-! ## The first place -/

/-- A search finds nothing above the place where it starts. -/
theorem le_of_firstFrom {probe : Probe} {before : Option Char} {offset place : Nat}
    {cs : List Char} (h : firstFrom probe before offset cs = some place) : offset ≤ place := by
  induction cs generalizing before offset with
  | nil =>
      rw [firstFrom] at h
      split at h
      · exact Nat.le_of_eq (Option.some.inj h)
      · cases h
  | cons c cs ih =>
      rw [firstFrom] at h
      split at h
      · exact Nat.le_of_eq (Option.some.inj h)
      · exact Nat.le_trans (Nat.le_add_right offset c.utf8Size) (ih h)

/-- A search that starts at a place that passes the test ends there. -/
theorem firstFrom_of_probe {probe : Probe} {before : Option Char} {cs : List Char}
    (h : probe before cs = true) (offset : Nat) : firstFrom probe before offset cs = some offset := by
  cases cs with
  | nil => rw [firstFrom, if_pos h]
  | cons c cs => rw [firstFrom, if_pos h]

/-- A test passes at a place of a text: the offset behind some front. -/
def Probe.Passes (probe : Probe) (text : List Char) (place : Nat) : Prop :=
  ∃ front cs, text = front ++ cs ∧ place = byteLength front ∧ probe front.getLast? cs = true

theorem getLast?_cons_or (c : Char) (front : List Char) (before : Option Char) :
    (c :: front).getLast?.or before = front.getLast?.or (some c) := by
  rw [List.getLast?_cons]
  cases front.getLast? <;> rfl

/-- What is found passes the test. -/
theorem exists_front_of_firstFrom {probe : Probe} {before : Option Char} {offset place : Nat}
    {cs : List Char} (h : firstFrom probe before offset cs = some place) :
    ∃ front rest, cs = front ++ rest ∧ place = offset + byteLength front ∧
      probe (front.getLast?.or before) rest = true := by
  induction cs generalizing before offset with
  | nil =>
      rw [firstFrom] at h
      split at h
      · next hprobe => exact ⟨[], [], rfl, (Option.some.inj h).symm, hprobe⟩
      · cases h
  | cons c cs ih =>
      rw [firstFrom] at h
      split at h
      · next hprobe => exact ⟨[], c :: cs, rfl, (Option.some.inj h).symm, hprobe⟩
      · obtain ⟨front, rest, rfl, rfl, hprobe⟩ := ih h
        refine ⟨c :: front, rest, rfl, ?_, ?_⟩
        · rw [byteLength_cons, Nat.add_assoc]
        · rwa [getLast?_cons_or]

/-- A place that passes the test is found, unless an earlier one is. -/
theorem exists_firstFrom_le {probe : Probe} {before : Option Char} (offset : Nat)
    {front rest : List Char} (h : probe (front.getLast?.or before) rest = true) :
    ∃ place, firstFrom probe before offset (front ++ rest) = some place ∧
      place ≤ offset + byteLength front := by
  induction front generalizing before offset with
  | nil =>
      exact ⟨offset, firstFrom_of_probe h offset, Nat.le_add_right offset _⟩
  | cons c front ih =>
      rw [getLast?_cons_or] at h
      rw [List.cons_append, firstFrom, byteLength_cons]
      split
      · exact ⟨offset, rfl, Nat.le_add_right offset _⟩
      · obtain ⟨place, hplace, hle⟩ := ih (offset + c.utf8Size) h
        exact ⟨place, hplace, by omega⟩

/-- A search finds the least place that passes the test. -/
theorem first?_eq_some_iff {probe : Probe} {text : List Char} {place : Nat} :
    first? probe text = some place ↔
      probe.Passes text place ∧ ∀ other, probe.Passes text other → place ≤ other := by
  have hle : ∀ {other}, probe.Passes text other →
      ∃ found, first? probe text = some found ∧ found ≤ other := by
    rintro other ⟨front, rest, rfl, rfl, hprobe⟩
    rw [← Option.or_none (o := front.getLast?)] at hprobe
    simpa [first?] using exists_firstFrom_le 0 hprobe
  constructor
  · intro h
    obtain ⟨front, rest, htext, hplace, hprobe⟩ := exists_front_of_firstFrom h
    rw [Option.or_none] at hprobe
    refine ⟨⟨front, rest, htext, by omega, hprobe⟩, fun other hother => ?_⟩
    obtain ⟨found, hfound, hle⟩ := hle hother
    obtain rfl := Option.some.inj (h.symm.trans hfound)
    exact hle
  · rintro ⟨hpasses, hleast⟩
    obtain ⟨found, hfound, hle⟩ := hle hpasses
    obtain ⟨front, rest, htext, hplace, hprobe⟩ := exists_front_of_firstFrom hfound
    rw [Option.or_none] at hprobe
    have hback := hleast found ⟨front, rest, htext, by omega, hprobe⟩
    rw [hfound, Nat.le_antisymm hle hback]

/-! ## Occurrences -/

section Occurrences

variable {opens : Option Char → Bool} {form : Form} {before : Option Char} {offset skip : Nat}
  {cs : List Char} {o : Occurrence}

/-- An occurrence stands behind what is skipped. -/
theorem here_suffix_of_mem (h : o ∈ occurrencesFrom opens form before offset skip cs) :
    o.here <:+ cs.drop skip := by
  induction cs generalizing before offset skip with
  | nil => simp [occurrencesFrom] at h
  | cons c cs ih =>
      cases skip with
      | succ skip =>
          rw [occurrencesFrom] at h
          exact ih h
      | zero =>
          rw [occurrencesFrom] at h
          cases hform : (if opens before then form (c :: cs) else none) with
          | none =>
              simp only [hform] at h
              exact (ih h).trans (List.suffix_cons c cs)
          | some n =>
              simp only [hform] at h
              rcases List.mem_cons.1 h with rfl | h
              · exact List.suffix_rfl
              · exact (ih h).trans ((List.drop_suffix _ _).trans (List.suffix_cons c cs))

/-- An occurrence reaches as far as the text does. -/
theorem start_add_of_mem (h : o ∈ occurrencesFrom opens form before offset skip cs) :
    o.start + byteLength o.here = offset + byteLength cs := by
  induction cs generalizing before offset skip with
  | nil => simp [occurrencesFrom] at h
  | cons c cs ih =>
      cases skip with
      | succ skip =>
          rw [occurrencesFrom] at h
          rw [ih h, byteLength_cons, Nat.add_assoc]
      | zero =>
          rw [occurrencesFrom] at h
          cases hform : (if opens before then form (c :: cs) else none) with
          | none =>
              simp only [hform] at h
              rw [ih h, byteLength_cons, Nat.add_assoc]
          | some n =>
              simp only [hform] at h
              rcases List.mem_cons.1 h with rfl | h
              · rfl
              · rw [ih h, byteLength_cons, Nat.add_assoc]

/-- What stands in front of an occurrence. -/
theorem exists_front_of_mem {text : List Char} (h : o ∈ occurrences opens form text) :
    ∃ front, text = front ++ o.here ∧ o.start = byteLength front := by
  obtain ⟨front, hfront⟩ := here_suffix_of_mem h
  have hend := start_add_of_mem h
  rw [List.drop_zero] at hfront
  refine ⟨front, hfront.symm, ?_⟩
  rw [← hfront, byteLength_append] at hend
  omega

theorem le_start_of_mem (h : o ∈ occurrencesFrom opens form before offset skip cs) :
    offset ≤ o.start := by
  have hend := start_add_of_mem h
  obtain ⟨front, hfront⟩ := (here_suffix_of_mem h).trans (List.drop_suffix skip cs)
  have hlength := congrArg byteLength hfront
  rw [byteLength_append] at hlength
  omega

/-- The form stands at an occurrence, and the text goes on there. -/
theorem form_of_mem (h : o ∈ occurrencesFrom opens form before offset skip cs) :
    ∃ c rest, o.here = c :: rest ∧ form (c :: rest) = some o.length := by
  induction cs generalizing before offset skip with
  | nil => simp [occurrencesFrom] at h
  | cons c cs ih =>
      cases skip with
      | succ skip =>
          rw [occurrencesFrom] at h
          exact ih h
      | zero =>
          rw [occurrencesFrom] at h
          cases hform : (if opens before then form (c :: cs) else none) with
          | none =>
              simp only [hform] at h
              exact ih h
          | some n =>
              simp only [hform] at h
              rcases List.mem_cons.1 h with rfl | h
              · rw [Option.ite_none_right_eq_some] at hform
                exact ⟨c, cs, rfl, hform.2⟩
              · exact ih h

/-- An occurrence stands where it may open. -/
theorem exists_opens_of_mem (h : o ∈ occurrencesFrom opens form before offset skip cs) :
    ∃ front, cs = front ++ o.here ∧ o.start = offset + byteLength front ∧
      opens (front.getLast?.or before) = true := by
  induction cs generalizing before offset skip with
  | nil => simp [occurrencesFrom] at h
  | cons c cs ih =>
      -- Behind the first character the search goes on with that character in front.
      have hlater : ∀ {skip}, o ∈ occurrencesFrom opens form (some c) (offset + c.utf8Size) skip cs →
          ∃ front, c :: cs = front ++ o.here ∧ o.start = offset + byteLength front ∧
            opens (front.getLast?.or before) = true := by
        intro skip hmem
        obtain ⟨front, rfl, hstart, hopens⟩ := ih hmem
        refine ⟨c :: front, rfl, ?_, by rwa [getLast?_cons_or]⟩
        rw [hstart, byteLength_cons, Nat.add_assoc]
      cases skip with
      | succ skip =>
          rw [occurrencesFrom] at h
          exact hlater h
      | zero =>
          rw [occurrencesFrom] at h
          cases hform : (if opens before then form (c :: cs) else none) with
          | none =>
              simp only [hform] at h
              exact hlater h
          | some n =>
              simp only [hform] at h
              rcases List.mem_cons.1 h with rfl | h
              · rw [Option.ite_none_right_eq_some] at hform
                exact ⟨[], rfl, rfl, hform.1⟩
              · exact hlater h

/-- Occurrences start one behind the other. -/
theorem pairwise_start :
    (occurrencesFrom opens form before offset skip cs).Pairwise fun a b => a.start < b.start := by
  induction cs generalizing before offset skip with
  | nil => exact .nil
  | cons c cs ih =>
      cases skip with
      | succ skip =>
          rw [occurrencesFrom]
          exact ih
      | zero =>
          rw [occurrencesFrom]
          cases (if opens before then form (c :: cs) else none) with
          | none => exact ih
          | some n =>
              refine List.pairwise_cons.2 ⟨fun later hlater => ?_, ih⟩
              have hsize := c.utf8Size_pos
              have hle := le_start_of_mem hlater
              show offset < later.start
              omega

/-- A form that stands nowhere in a text has no occurrence in it. -/
theorem occurrencesFrom_eq_nil (h : ∀ u, u <:+ cs → form u = none) :
    occurrencesFrom opens form before offset skip cs = [] := by
  induction cs generalizing before offset skip with
  | nil => rfl
  | cons c cs ih =>
      have hlater : ∀ u, u <:+ cs → form u = none := by
        intro u hu
        exact h u (hu.trans (List.suffix_cons c cs))
      cases skip with
      | succ skip =>
          rw [occurrencesFrom]
          exact ih hlater
      | zero =>
          rw [occurrencesFrom, h (c :: cs) List.suffix_rfl]
          simp only [ite_self]
          exact ih hlater

end Occurrences

end Text
end Neatness
