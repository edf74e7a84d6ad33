import Neatness.Proofs.Independence
import Neatness.Proofs.Places
import Neatness.Status

/-!
# Quoted absolute paths

A path is absolute if it starts with a drive or with a folder of the root, and it is looked for
directly behind a quote.  Of the rules of a preset this one alone blocks a submission, and its
penalty keeps the score so low that nothing else can save it.

* `Root` is how an absolute path starts, and `QuotedPath` a text that starts with a quoted one.
* `opensAt_iff` says that a place passes the test exactly if a quoted path starts there.
* `fatal_analyze_preset_iff` and `score_le_of_fatal` are what a scan makes of it, and
  `Presenter.tier_of_fatal` what the author is shown.
* `check_of_quoted_paths` puts these together.
-/

namespace Neatness

/-- The whole is no less than one of its parts. -/
theorem Score.toNat_le_total {d : UInt8} {ds : List UInt8} (h : d ∈ ds) : d.toNat ≤ total ds := by
  induction ds with
  | nil => cases h
  | cons e ds ih =>
      rw [total_cons]
      rcases List.mem_cons.1 h with rfl | h
      · exact Nat.le_add_right _ _
      · exact Nat.le_trans (ih h) (Nat.le_add_left _ _)

/-- A blocked result is shown as blocked, unless it has all points. -/
theorem Presenter.tier_of_fatal (p : Presenter) {r : ScanResult} (hfatal : r.fatal = true)
    (hscore : r.score ≠ Score.perfect) : p.tier r = .failure := by
  have hperfect : r.isPerfect = false := beq_eq_false_iff_ne.2 hscore
  rw [Presenter.tier, hperfect, hfatal, Bool.true_or]
  rfl

namespace AbsolutePath

/-! ## How a quoted path reads -/

/-- The double quote, the single quote and the back quote. -/
def quotes : List Char := ['\x22', '\x27', '\x60']

/-- The start of an absolute path. -/
inductive Root : List Char → Prop
  /-- A letter, a colon, and a slash of either kind. -/
  | drive {letter slash : Char} (hletter : letter.isAlpha = true)
      (hslash : slash = '/' ∨ slash = '\\') : Root [letter, ':', slash]
  /-- A name of word characters between two slashes. -/
  | folder {name : List Char} (hname : name ≠ []) (hword : ∀ c ∈ name, Text.isWordChar c = true) :
      Root ('/' :: (name ++ ['/']))

/-- A quote and the start of an absolute path right behind it. -/
def QuotedPath (cs : List Char) : Prop :=
  ∃ quote root rest, cs = quote :: (root ++ rest) ∧ quote ∈ quotes ∧ Root root

/-- A quoted path stands somewhere in a text. -/
def HasQuotedPath (text : List Char) : Prop :=
  ∃ front rest, text = front ++ rest ∧ QuotedPath rest

/-! ## The test of a place -/

theorem startsWithDrive_iff {cs : List Char} :
    startsWithDrive cs = true ↔ ∃ letter slash, letter.isAlpha = true ∧
      (slash = '/' ∨ slash = '\\') ∧ [letter, ':', slash] <+: cs := by
  constructor
  · intro h
    unfold startsWithDrive at h
    split at h
    · rename_i letter slash rest
      simp only [Bool.and_eq_true, Bool.or_eq_true, beq_iff_eq] at h
      exact ⟨letter, slash, h.1, h.2, rest, rfl⟩
    · cases h
  · rintro ⟨letter, slash, hletter, hslash, rest, rfl⟩
    simp [startsWithDrive, hletter, hslash]

theorem startsWithFolder_cons (cs : List Char) :
    startsWithFolder ('/' :: cs) =
      (!(cs.takeWhile Text.isWordChar).isEmpty &&
        (cs.dropWhile Text.isWordChar).head? == some '/') := by
  rw [startsWithFolder, Text.drop_length_takeWhile]

theorem startsWithFolder_iff {cs : List Char} :
    startsWithFolder cs = true ↔ ∃ name rest, cs = '/' :: (name ++ '/' :: rest) ∧ name ≠ [] ∧
      ∀ c ∈ name, Text.isWordChar c = true := by
  constructor
  · intro h
    have hslash : ∃ ds, cs = '/' :: ds := by
      unfold startsWithFolder at h
      split at h
      · next ds => exact ⟨ds, rfl⟩
      · cases h
    obtain ⟨ds, rfl⟩ := hslash
    rw [startsWithFolder_cons, Bool.and_eq_true, Bool.not_eq_true', List.isEmpty_eq_false_iff,
      beq_iff_eq] at h
    obtain ⟨rest, hrest⟩ := List.head?_eq_some_iff.1 h.2
    refine ⟨ds.takeWhile Text.isWordChar, rest, ?_, h.1, List.all_eq_true.1 List.all_takeWhile⟩
    rw [← hrest, List.takeWhile_append_dropWhile]
  · rintro ⟨name, rest, rfl, hname, hword⟩
    -- The slash behind the name is no word character, so the name is all that is taken.
    have htake : (name ++ '/' :: rest).takeWhile Text.isWordChar = name := by
      rw [List.takeWhile_append_of_pos hword, List.takeWhile_cons_of_neg (by decide),
        List.append_nil]
    rw [startsWithFolder_cons, htake, Text.dropWhile_all_append hword (by decide)]
    simp [hname]

theorem root_iff {cs : List Char} :
    (startsWithDrive cs || startsWithFolder cs) = true ↔
      ∃ root rest, cs = root ++ rest ∧ Root root := by
  rw [Bool.or_eq_true, startsWithDrive_iff, startsWithFolder_iff]
  constructor
  · rintro (⟨letter, slash, hletter, hslash, rest, rfl⟩ | ⟨name, rest, rfl, hname, hword⟩)
    · exact ⟨_, rest, rfl, .drive hletter hslash⟩
    · exact ⟨_, rest, by simp, .folder hname hword⟩
  · rintro ⟨root, rest, rfl, hroot⟩
    cases hroot with
    | drive hletter hslash => exact .inl ⟨_, _, hletter, hslash, rest, rfl⟩
    | folder hname hword => exact .inr ⟨_, rest, by simp, hname, hword⟩

/-- A place passes the test exactly if a quoted path starts there. -/
theorem opensAt_iff (before : Option Char) (cs : List Char) :
    opensAt before cs = true ↔ QuotedPath cs := by
  cases cs with
  | nil =>
      constructor
      · rintro ⟨⟩
      · rintro ⟨_, _, _, h, -⟩
        cases h
  | cons c cs =>
      have hquote : isQuote c = true ↔ c ∈ quotes := by
        simp [isQuote, quotes, or_assoc]
      rw [opensAt, Bool.and_eq_true, hquote, root_iff]
      constructor
      · rintro ⟨hc, root, rest, rfl, hroot⟩
        exact ⟨c, root, rest, rfl, hc, hroot⟩
      · rintro ⟨quote, root, rest, hcs, hc, hroot⟩
        obtain ⟨rfl, rfl⟩ := List.cons.inj hcs
        exact ⟨hc, root, rest, rfl, hroot⟩

theorem check_isSome_iff {text : List Char} : (check text).isSome = true ↔ HasQuotedPath text := by
  rw [check, Option.isSome_map,
    Text.first?_isSome_iff_nonempty fun front rest => opensAt_iff _ rest]
  constructor
  · rintro ⟨-, front, rest, htext, -, hquoted⟩
    exact ⟨front, rest, htext, hquoted⟩
  · rintro ⟨front, rest, htext, hquoted⟩
    exact ⟨_, front, rest, htext, rfl, hquoted⟩

/-! ## What a scan makes of it -/

section Presets

variable {preset : Preset} {text name : String}

/-- Of the rules of a preset only this one blocks. -/
theorem fatal_preset_iff (preset : Preset) (rule : Rule) :
    (preset.table.entry rule).fatal = true ↔ rule = .absolutePath := by
  cases rule <;> simp [Preset.table]

theorem charged?_preset_iff (preset : Preset) (text name : List Char) :
    (∃ p, charged? preset.table text name .absolutePath = some p) ↔ HasQuotedPath text := by
  rw [← check_isSome_iff, Option.isSome_iff_exists]
  constructor
  · rintro ⟨p, hp⟩
    obtain ⟨-, d, hd, -, -⟩ := charged?_eq_some_iff.1 hp
    exact ⟨d, hd⟩
  · rintro ⟨d, hd⟩
    have hrule : d.rule = .absolutePath := by
      obtain ⟨offset, -, rfl⟩ := Option.map_eq_some_iff.1 hd
      rfl
    exact ⟨_, charged?_eq_some_iff.2 ⟨rfl, d, hd, hrule, rfl⟩⟩

variable (preset text name) in
theorem fatal_analyze_preset_iff :
    (analyze preset.table text name).fatal = true ↔ HasQuotedPath text.toList := by
  rw [(balances_analyze preset.table text name).fatal_iff,
    ← charged?_preset_iff preset _ name.toList, ← hasRule_analyze_iff, ScanResult.hasRule,
    List.any_eq_true]
  simp only [fatal_preset_iff, beq_iff_eq]

/-- What blocks costs forty points. -/
theorem score_le_of_fatal (h : (analyze preset.table text name).fatal = true) :
    (analyze preset.table text name).score ≤ 60 := by
  have hbalances := balances_analyze preset.table text name
  obtain ⟨p, hp, hblocks⟩ := hbalances.fatal_iff.1 h
  have hcharge := (hbalances.charged p hp).2
  rw [(fatal_preset_iff preset p.rule).1 hblocks] at hcharge
  have hle : (40 : UInt8).toNat ≤ (analyze preset.table text name).totalDeduction :=
    Score.toNat_le_total (List.mem_map.2 ⟨p, hp, hcharge⟩)
  have hscore : (analyze preset.table text name).score.toNat =
      100 - (analyze preset.table text name).totalDeduction :=
    Score.toNat_ofDeductions _
  rw [UInt8.le_iff_toNat_le, hscore]
  exact Nat.sub_le_sub_left hle 100

end Presets

/-! ## What is reported -/

/-- The rule reports a path exactly if a quoted one stands in the text, and then the first one, at
its quote.  With the table of a preset such a path blocks the submission and nothing else does: not
more than sixty points are left, and whatever the threshold, the author is told that it is
blocked. -/
theorem check_of_quoted_paths (text : String) :
    ((check text.toList).isSome = true ↔ HasQuotedPath text.toList) ∧
    (∀ d, check text.toList = some d ↔ ∃ offset,
      IsLeast (Text.startsOf (fun _ => QuotedPath) text.toList) offset ∧
        d = ⟨.absolutePath, offset, message⟩) ∧
    ∀ (preset : Preset) (name : String),
      ((analyze preset.table text name).fatal = true ↔ HasQuotedPath text.toList) ∧
      (HasQuotedPath text.toList → (analyze preset.table text name).score ≤ 60 ∧
        ∀ threshold, Presenter.tier ⟨threshold⟩ (analyze preset.table text name) = .failure) := by
  refine ⟨check_isSome_iff, fun d => ?_, fun preset name =>
    ⟨fatal_analyze_preset_iff preset text name, fun h => ?_⟩⟩
  · rw [check, Option.map_eq_some_iff]
    simp only [Text.first?_eq_some_iff_isLeast fun front rest => opensAt_iff _ rest, eq_comm]
  · have hfatal := (fatal_analyze_preset_iff preset text name).2 h
    have hscore := score_le_of_fatal hfatal
    refine ⟨hscore, fun threshold => Presenter.tier_of_fatal ⟨threshold⟩ hfatal fun hperfect => ?_⟩
    rw [hperfect] at hscore
    exact absurd hscore (by decide)

/-- A folder with a letter of two bytes in its name, behind a web address that is no path. -/
def lateFolder : String :=
  "get(\"https://a/b/\", '/café/x')"

theorem check_of_quoted_paths_lateFolder :
    check lateFolder.toList = some ⟨.absolutePath, 20, message⟩ ∧ HasQuotedPath lateFolder.toList ∧
      (analyze Preset.gentle.table lateFolder "").score ≤ 60 ∧
      Presenter.tier ⟨0⟩ (analyze Preset.gentle.table lateFolder "") = .failure := by
  have hcheck : check lateFolder.toList = some ⟨.absolutePath, 20, message⟩ := by
    decide +kernel
  obtain ⟨hsome, -, hscan⟩ := check_of_quoted_paths lateFolder
  have hquotes : HasQuotedPath lateFolder.toList := hsome.1 (by rw [hcheck]; rfl)
  obtain ⟨hscore, htier⟩ := (hscan .gentle "").2 hquotes
  exact ⟨hcheck, hquotes, hscore, htier 0⟩

end AbsolutePath
end Neatness
