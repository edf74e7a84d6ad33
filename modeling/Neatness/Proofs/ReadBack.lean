import Mathlib.Data.List.Forall2
import Neatness.Proofs.FileTree
import Neatness.Proofs.JsonText
import Neatness.Report.Record

/-!
# Reading reports back

A report for other programs is read back as the scans that it is about, each with the view of its
status.  That needs a path that is text and places that fit into 64 bits (`FileScan.IsPlain`).

* Sound values: a scan is read from an object that is sound as a whole, so every number written has
  to be one of double precision; 64 bits always are (`Number.isFinite_ofNat`).
* Every record is read back as the value that it was written for, part by part
  (`Location.ofJson?_toJson` up to `StatusView.ofJson?_toJson`).
* `JsonReporter.ReadsBack` says what has to come out of the report on one scan.
-/

namespace Neatness
namespace Json

/-! ## Sound values -/

section Sound

open Number

/-- Rounding to 53 binary digits does not double a number. -/
theorem Number.round53_le (n : Nat) : round53 n ≤ 2 * n + 1 := by
  -- Rounding adds at most one unit of the last digit that is kept.
  have hunit : Nat.pow 2 (n.log2 - 52) ≤ n + 1 := by
    by_cases hzero : n = 0
    · subst hzero
      decide
    · have hle : 2 ^ (n.log2 - 52) ≤ 2 ^ n.log2 := Nat.pow_le_pow_right (by decide) (by omega)
      exact Nat.le_trans (Nat.le_trans hle (Nat.log2_self_le hzero)) (Nat.le_succ n)
  have hlow : n / Nat.pow 2 (n.log2 - 52) * Nat.pow 2 (n.log2 - 52) ≤ n := Nat.div_mul_le_self ..
  unfold round53
  simp only
  split
  · rw [Nat.succ_mul]
    omega
  · omega

/-- Whole numbers of 64 bits have a value of double precision. -/
theorem Number.isFinite_ofNat {n : Nat} (h : n < wordLimit) : (Number.ofNat n).isFinite = true := by
  -- All digits are leading ones, so no power of ten comes in.
  have hleading : (Number.ofNat n).leading = ⟨n, 0⟩ := by
    rw [leading, Number.ofNat, Leading.ofNat, if_pos h]
    rfl
  have hrange : inRange n (.ofNat 0) = true := by
    have hone : round53 (Nat.pow 10 0) = 1 := by decide +kernel
    have hlimit : 2 * wordLimit + 1 ≤ limit := by decide +kernel
    have hround := round53_le n
    rw [inRange, hone, Nat.mul_one, Bool.and_eq_true, decide_eq_true_eq, decide_eq_true_eq]
    exact ⟨Nat.zero_le 308, by omega⟩
  have hsmall : isHuge 0 = false := by decide
  rw [isFinite, hleading]
  simp only [Number.ofNat, Option.getD_none, hsmall]
  rw [Bool.or_eq_true]
  exact .inr hrange

@[simp] theorem isSound_text (s : String) : (text s).isSound = true := by
  simp [text, isSound]

@[simp] theorem isSound_bool (b : Bool) : (Json.bool b).isSound = true := by
  simp [isSound]

theorem isSound_nat {n : Nat} (h : n < wordLimit) : (nat n).isSound = true := by
  rw [nat, isSound, Number.isFinite_ofNat h]

@[simp] theorem isSound_byte (b : UInt8) : (nat b.toNat).isSound = true :=
  isSound_nat (Nat.lt_trans b.toNat_lt (by decide))

theorem areSound_eq_all (vs : List Json) : areSound vs = vs.all isSound := by
  induction vs with
  | nil => rfl
  | cons v vs ih => rw [areSound, List.all_cons, ih]

@[simp] theorem isSound_arr (vs : List Json) : (Json.arr vs).isSound = vs.all isSound := by
  rw [isSound, areSound_eq_all]

@[simp] theorem isSound_record (ms : List (String × Json)) :
    (record ms).isSound = ms.all fun m => m.2.isSound := by
  rw [record, isSound]
  induction ms with
  | nil => rfl
  | cons m ms ih =>
      rw [List.map_cons, membersSound, ih, List.all_cons, Option.isSome_some, Bool.true_and]

end Sound

/-! ## What a slot holds -/

@[simp] theorem text?_text (s : String) : text? (text s) = some s := rfl

@[simp] theorem flag?_bool (b : Bool) : flag? (.bool b) = some b := rfl

theorem natBelow?_nat {n limit : Nat} (h : n < limit) : natBelow? limit (nat n) = some n := by
  simp [natBelow?, nat, Option.filter, h]

@[simp] theorem byte?_nat (b : UInt8) : byte? (nat b.toNat) = some b := by
  rw [byte?, natBelow?_nat b.toNat_lt, Option.map_some]
  exact congrArg some UInt8.ofNat_toNat

@[simp] theorem may_text {α : Type} (read? : Json → Option α) (s : String) :
    may read? (some (text s)) = (read? (text s)).map some := rfl

@[simp] theorem may_bool {α : Type} (read? : Json → Option α) (b : Bool) :
    may read? (some (.bool b)) = (read? (.bool b)).map some := rfl

@[simp] theorem may_nat {α : Type} (read? : Json → Option α) (n : Nat) :
    may read? (some (nat n)) = (read? (nat n)).map some := rfl

@[simp] theorem may_none {α : Type} (read? : Json → Option α) : may read? none = some none := rfl

/-- A list is read item by item. -/
theorem listOf?_map {α : Type} {write : α → Json} {read? : Json → Option α} {xs : List α}
    (h : ∀ x ∈ xs, read? (write x) = some x) : listOf? read? (.arr (xs.map write)) = some xs := by
  rw [listOf?]
  induction xs with
  | nil => rfl
  | cons x xs ih =>
      have hx := h x List.mem_cons_self
      have hxs := ih fun y hy => h y (List.mem_cons_of_mem x hy)
      simp [hx, hxs]

/-- The value of the only member under a name. -/
def only? (name : String) : Json → Option Json
  | .obj members =>
    match members.filter fun m => m.1 == some name with
    | [m] => some m.2
    | _ => none
  | _ => none

end Json

/-! ## The parts of a report -/

/-- Both numbers of the place have at most 64 bits. -/
def Location.Fits (l : Location) : Prop :=
  l.line < Json.Number.wordLimit ∧ l.column < Json.Number.wordLimit

namespace Location

instance (l : Location) : Decidable l.Fits :=
  inferInstanceAs (Decidable (_ ∧ _))

theorem isSound_toJson {l : Location} (h : l.Fits) : l.toJson.isSound = true := by
  simp [toJson, Json.isSound_nat h.1, Json.isSound_nat h.2]

theorem ofJson?_toJson {l : Location} (h : l.Fits) : ofJson? l.toJson = some l := by
  have hslots : l.toJson.slots? fields false = some [some (.nat l.line), some (.nat l.column)] :=
    rfl
  have hline := Json.natBelow?_nat h.1
  have hcolumn := Json.natBelow?_nat h.2
  rw [Json.Number.wordLimit] at hline hcolumn
  simp [ofJson?, hslots, Json.must, hline, hcolumn]

end Location

namespace Problem

theorem isSound_toJson {p : Problem} (h : p.location.Fits) : p.toJson.isSound = true := by
  simp [toJson, Location.isSound_toJson h]

/-- A problem is read back by any reader of rule names that reads a plain text. -/
theorem ofJson?_toJson {name? : Json → Option String} (hname : ∀ s, name? (.text s) = some s)
    {p : Problem} (h : p.location.Fits) : ofJson? name? p.toJson = some p := by
  have hslots : p.toJson.slots? fields false = some [some (.text p.rule.name),
      some (.text p.message), some (.nat p.deduction.toNat), some p.location.toJson] := rfl
  simp [ofJson?, hslots, Json.must, hname, Location.ofJson?_toJson h]

end Problem

/-- The places of all problems fit. -/
def ScanResult.Fits (r : ScanResult) : Prop :=
  ∀ p ∈ r.problems, p.location.Fits

namespace ScanResult

instance (r : ScanResult) : Decidable r.Fits :=
  inferInstanceAs (Decidable (∀ p ∈ r.problems, p.location.Fits))

theorem members_sound {r : ScanResult} (h : r.Fits) :
    (r.members.all fun m => m.2.isSound) = true := by
  have hproblems : ∀ p ∈ r.problems, p.toJson.isSound = true := fun p hp =>
    Problem.isSound_toJson (h p hp)
  simpa [members] using hproblems

/-- A result is read back from its parts. -/
theorem ofSlots?_members {name? : Json → Option String} (hname : ∀ s, name? (.text s) = some s)
    {r : ScanResult} (h : r.Fits) :
    ofSlots? name? (some (.nat r.score.toNat)) (some (.bool r.fatal))
      (some (.arr (r.problems.map Problem.toJson))) = some r := by
  have hproblems : Json.listOf? (Problem.ofJson? name?) (.arr (r.problems.map Problem.toJson)) =
      some r.problems := Json.listOf?_map fun p hp => Problem.ofJson?_toJson hname (h p hp)
  simp [ofSlots?, Json.must, hproblems]

end ScanResult

namespace StatusView

@[simp] theorem isSound_toJson (v : StatusView) : v.toJson.isSound = true := by
  cases hicon : v.icon <;> simp [toJson, hicon]

/-- Every view is read back, with or without an icon. -/
theorem ofJson?_toJson (v : StatusView) : ofJson? v.toJson = some v := by
  obtain ⟨tier, score, label, icon, color, tooltip⟩ := v
  have htier : (Json.variant? (.text tier.name)).bind Tier.ofName? = some tier :=
    Tier.ofName?_name tier
  have hslots : (toJson ⟨tier, score, label, icon, color, tooltip⟩).slots? fields false =
      some [some (.text tier.name), some (.nat score.toNat), some (.text label),
        icon.map Json.text, some (.text color), some (.text tooltip)] := by
    cases icon <;> rfl
  have hicon : Json.may Json.text? (icon.map Json.text) = some icon := by
    cases icon <;> simp
  simp [ofJson?, hslots, hicon, Json.must, htier]

/-- The icon is a member of the object exactly if the view has one. -/
theorem only?_icon (v : StatusView) : v.toJson.only? "icon" = v.icon.map Json.text := by
  obtain ⟨tier, score, label, icon, color, tooltip⟩ := v
  cases icon <;> rfl

end StatusView

/-! ## Scans and reports -/

/-- The scan can be told in JSON: its path is text, and the places of its problems fit. -/
structure FileScan.IsPlain (s : FileScan) : Prop where
  path_isText : s.path.text?.isSome = true
  fits : s.result.Fits

namespace FileScan

/-- The form of a scan whose path is a text, with a status behind. -/
def form (s : FileScan) (path : String) (status : Json) : Json :=
  .record (("filePath", .text path) :: s.result.members ++ [("status", status)])

variable {s : FileScan} {path : String} {status : Json}

theorem isSound_form (hfits : s.result.Fits) (hstatus : status.isSound = true) :
    (s.form path status).isSound = true := by
  simp [form, ScanResult.members_sound hfits, hstatus]

/-- A scan is read back from its form; the status is passed over, as long as it is sound. -/
theorem ofJson?_form (hpath : s.path.text? = some path) (hfits : s.result.Fits)
    (hstatus : status.isSound = true) : ofJson? (s.form path status) = some s := by
  have hsound : (s.form path status).isSound = true := isSound_form hfits hstatus
  have hslots : (s.form path status).slots? fields false =
      some [some (.text path), some (.nat s.result.score.toNat), some (.bool s.result.fatal),
        some (.arr (s.result.problems.map Problem.toJson))] := rfl
  have hname : ∀ s, Json.innerVariant? (.text s) = some s := fun _ => rfl
  have hresult := ScanResult.ofSlots?_members hname hfits
  have hbytes : Path.ofText path = s.path :=
    congrArg Path.mk (Utf8.toText?_eq_some_iff.1 hpath)
  rw [form, Json.record] at hsound hslots ⊢
  rw [ofJson?, if_pos hsound, hslots]
  simp [hresult, hbytes, Json.must]

end FileScan

namespace JsonReporter

variable {r : JsonReporter}

/-- The form is the scan's, with the view of its status; an icon is written exactly if there is
one. -/
structure ReadsBack (r : JsonReporter) (s : FileScan) (form : Json) : Prop where
  scan_eq : FileScan.ofJson? form = some s
  /-- The view of the status is read back. -/
  status_eq : ∃ status, form.only? "status" = some status ∧
    StatusView.ofJson? status = some (r.presenter.present s.result) ∧
    status.only? "icon" = (r.presenter.present s.result).icon.map Json.text

/-- Every scan that can be told has a sound form that is read back. -/
theorem exists_entry (r : JsonReporter) {s : FileScan} (h : s.IsPlain) :
    ∃ form, r.entry? s = some form ∧ form.isSound = true ∧ r.ReadsBack s form := by
  obtain ⟨path, hpath⟩ := Option.isSome_iff_exists.1 h.path_isText
  have hstatus := StatusView.isSound_toJson (r.presenter.present s.result)
  refine ⟨s.form path _, ?_, FileScan.isSound_form h.fits hstatus,
    FileScan.ofJson?_form hpath h.fits hstatus, _, rfl, StatusView.ofJson?_toJson _,
    StatusView.only?_icon _⟩
  rw [ entry?, FileScan.members?, hpath]
  rfl

/-- The forms of several scans stand in the order of the scans. -/
theorem exists_entries (r : JsonReporter) {scans : List FileScan} (h : ∀ s ∈ scans, s.IsPlain) :
    ∃ forms, scans.mapM r.entry? = some forms ∧ Json.areSound forms = true ∧
      List.Forall₂ r.ReadsBack scans forms := by
  induction scans with
  | nil => exact ⟨[], rfl, rfl, .nil⟩
  | cons s scans ih =>
      obtain ⟨form, hform, hsound, hreads⟩ := r.exists_entry (h s List.mem_cons_self)
      obtain ⟨forms, hforms, hsounds, hall⟩ := ih fun s hs => h s (List.mem_cons_of_mem _ hs)
      refine ⟨form :: forms, ?_, ?_, .cons hreads hall⟩
      · simp [hform, hforms]
      · rw [Json.areSound, hsound, hsounds, Bool.and_self]

/-- The report on a scan is read back as the scan and the view of its status, and the report on
several scans as all of them in their order, however the text is laid out and whatever the
threshold and the summary are. -/
theorem reports_read_back (r : JsonReporter) :
    (∀ s : FileScan, s.IsPlain →
      ∃ form, Json.parse (r.report s) = some form ∧ r.ReadsBack s form) ∧
    ∀ (scans : List FileScan) (summary : ScanSummary), (∀ s ∈ scans, s.IsPlain) →
      ∃ form items, Json.parse (r.reportMany scans summary) = some form ∧
        form.only? "results" = some (.arr items) ∧ List.Forall₂ r.ReadsBack scans items := by
  constructor
  · intro s hs
    obtain ⟨form, hform, hsound, hreads⟩ := r.exists_entry hs
    refine ⟨form, ?_, hreads⟩
    rw [report, write, hform, Option.getD_some]
    exact Json.parse_write (Json.isText_of_isSound hsound) r.layout
  · intro scans summary hscans
    obtain ⟨items, hitems, hsound, hreads⟩ := r.exists_entries hscans
    refine ⟨.record [("results", .arr items), ("summary", summary.toJson)], items, ?_, rfl, hreads⟩
    rw [reportMany, write, hitems, Option.map_some, Option.getD_some]
    refine Json.parse_write ?_ r.layout
    have htext := Json.areText_of_areSound hsound
    simp [Json.record, Json.isText, Json.membersText, htext, ScanSummary.toJson, Json.nat]

/-- A scan whose path and message need escapes, with the largest place. -/
def awkwardScan : FileScan where
  path := Path.ofText "a \"b\".py"
  result := ⟨0, true,
    [⟨.absolutePath, "\\\x01\n\u00e9", 255, ⟨0xFFFFFFFFFFFFFFFF, 0xFFFFFFFFFFFFFFFF⟩⟩]⟩

/-- It is read back from a report in lines, and from both places of a report on two scans. -/
theorem reports_read_back_awkward :
    awkwardScan.IsPlain ∧
    (∃ form, Json.parse ((JsonReporter.mk ⟨50⟩ .pretty).report awkwardScan) = some form ∧
      ReadsBack ⟨⟨50⟩, .pretty⟩ awkwardScan form) ∧
    ∃ form items, Json.parse ((JsonReporter.mk ⟨0⟩ .compact).reportMany [awkwardScan, awkwardScan]
        (.ofScans [awkwardScan, awkwardScan])) = some form ∧
      form.only? "results" = some (.arr items) ∧
      List.Forall₂ (ReadsBack ⟨⟨0⟩, .compact⟩) [awkwardScan, awkwardScan] items := by
  have hplain : awkwardScan.IsPlain := ⟨by decide +kernel, by decide⟩
  refine ⟨hplain, (reports_read_back _).1 _ hplain, (reports_read_back _).2 _ _ ?_⟩
  simp [hplain]

end JsonReporter
end Neatness
