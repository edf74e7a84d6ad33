import Mathlib.Data.List.Basic
import Neatness.Proofs.Places
import Neatness.Proofs.ShownBytes
import Neatness.Report.Console

/-!
# Reports without colours

Colours only add to a report.  Styles are written as control sequences, and whoever takes all of
them out of a coloured report has the plain one, as long as no path and no message brings control
sequences of its own.

* `Text.without` takes the places of a form out of a text, and `Style.control` is the form of a
  control sequence.
* `Fragment.unstyled_writeAll` is the law for all output that is made of fragments.
* `ConsoleReporter.reportLines` is a plain report line by line, and `join_report` says that it
  is the one that is written.
* `ConsoleReporter.reports_unstyled` is the law for the reports, with the lines of the problems.
-/

namespace Neatness

/-! ## Taking forms out of a text -/

namespace Text

/-- A text without the places of a form, where the next `skip` characters belong to the place found
last. -/
def withoutFrom (form : Form) (skip : Nat) : List Char → List Char
  | [] => []
  | c :: cs =>
    match skip with
    | skip + 1 => withoutFrom form skip cs
    | 0 =>
      match form (c :: cs) with
      | some (n + 1) => withoutFrom form n cs
      | _ => c :: withoutFrom form 0 cs

/-- A text without the places of a form. -/
def without (form : Form) (cs : List Char) : List Char :=
  withoutFrom form 0 cs

section Without

variable {form : Form}

theorem withoutFrom_eq_without_drop (skip : Nat) (cs : List Char) :
    withoutFrom form skip cs = without form (cs.drop skip) := by
  induction cs generalizing skip with
  | nil => cases skip <;> rfl
  | cons c cs ih =>
      cases skip with
      | zero => rfl
      | succ skip => exact ih skip

theorem without_cons_of_none {c : Char} {cs : List Char} (h : form (c :: cs) = none) :
    without form (c :: cs) = c :: without form cs := by
  rw [without, withoutFrom, h]
  rfl

/-- A place of the form is left out. -/
theorem without_append_of_some {front cs : List Char} (hfront : front ≠ [])
    (h : form (front ++ cs) = some front.length) :
    without form (front ++ cs) = without form cs := by
  obtain ⟨c, front, rfl⟩ := List.exists_cons_of_ne_nil hfront
  rw [List.cons_append, List.length_cons] at h
  rw [List.cons_append, without, withoutFrom, h]
  show withoutFrom form front.length (front ++ cs) = without form cs
  rw [withoutFrom_eq_without_drop, List.drop_left]

end Without

/-! ## Characters that a text lacks -/

/-- A character does not stand in a text. -/
def Lacks (c : Char) (s : String) : Prop :=
  c ∉ s.toList

instance (c : Char) (s : String) : Decidable (Lacks c s) :=
  inferInstanceAs (Decidable (c ∉ s.toList))

/-- A text without the control characters that come before the space. -/
def Visible (s : String) : Prop :=
  ∀ c ∈ s.toList, ' ' ≤ c

instance (s : String) : Decidable (Visible s) :=
  List.decidableBAll (' ' ≤ ·) s.toList

theorem lacks_append {c : Char} {s t : String} : Lacks c (s ++ t) ↔ Lacks c s ∧ Lacks c t := by
  rw [Lacks, String.toList_append, List.mem_append, not_or]
  rfl

theorem lacks_join {c : Char} {l : List String} :
    Lacks c (String.join l) ↔ ∀ s ∈ l, Lacks c s := by
  rw [Lacks, String.toList_join, List.mem_flatMap]
  exact not_exists.trans (forall_congr' fun s => not_and)

theorem Visible.lacks {c : Char} {s : String} (h : Visible s) (hc : c < ' ') : Lacks c s :=
  fun hmem => absurd (h c hmem) (Nat.not_le_of_lt hc)

theorem visible_append {s t : String} : Visible (s ++ t) ↔ Visible s ∧ Visible t := by
  rw [Visible, String.toList_append]
  exact List.forall_mem_append

theorem visible_number (n : Nat) : Visible (toString n) := by
  intro c hc
  rw [show toString n = n.repr from rfl, Nat.toList_repr] at hc
  have hdigit := Nat.isDigit_of_mem_toDigits (by decide) (by decide) hc
  simp only [Char.isDigit, Bool.and_eq_true, decide_eq_true_eq] at hdigit
  exact UInt32.le_trans (by decide : (' ' : Char).val ≤ '0'.val) hdigit.1

end Text

/-! ## Control sequences -/

namespace Style

/-- A digit or a semicolon. -/
def isParameter (c : Char) : Bool :=
  c.isDigit || c == ';'

/-- A control sequence that styles text: an escape, a bracket, parameters, and an `m`. -/
def control : Text.Form :=
  (Text.literal ['\x1b', '[']).andThen ((Text.run isParameter).andThen (Text.literal ['m']))

/-- Output without its control sequences. -/
def unstyled (output : String) : String :=
  String.ofList (Text.without control output.toList)

theorem control_cons_of_ne {c : Char} (h : c ≠ '\x1b') (cs : List Char) :
    control (c :: cs) = none := by
  have hescape : (['\x1b', '['] : List Char).isPrefixOf (c :: cs) = false := by
    simp [List.isPrefixOf, Ne.symm h]
  simp [control, Text.Form.andThen, Text.literal, hescape]

theorem control_sequence {codes : String} (h : ∀ c ∈ codes.toList, isParameter c = true)
    (cs : List Char) : control (sequence codes ++ cs) = some (sequence codes).length := by
  have htake : (codes.toList ++ 'm' :: cs).takeWhile isParameter = codes.toList := by
    rw [List.takeWhile_append_of_pos h, List.takeWhile_cons_of_neg (by decide), List.append_nil]
  have hsequence : sequence codes ++ cs = ['\x1b', '['] ++ (codes.toList ++ 'm' :: cs) := by
    simp [sequence]
  have hlength : (sequence codes).length = 2 + (codes.toList.length + 1) := by
    simp [sequence]
    omega
  rw [hsequence, hlength]
  simp [control, Text.Form.andThen, Text.literal, Text.run, htake, List.isPrefixOf]

/-- A control sequence is taken out. -/
theorem without_sequence {codes : String} (h : ∀ c ∈ codes.toList, isParameter c = true)
    (cs : List Char) : Text.without control (sequence codes ++ cs) = Text.without control cs :=
  Text.without_append_of_some (by simp [sequence]) (control_sequence h cs)

/-- Nothing is taken out of a text without escapes. -/
theorem without_append_of_not_mem {text : List Char} (h : '\x1b' ∉ text) (cs : List Char) :
    Text.without control (text ++ cs) = text ++ Text.without control cs := by
  induction text with
  | nil => rfl
  | cons c text ih =>
      rw [List.mem_cons, not_or] at h
      rw [List.cons_append, Text.without_cons_of_none (control_cons_of_ne (Ne.symm h.1) _), ih h.2]
      rfl

theorem isParameter_of_mem_codes (s : Style) : ∀ c ∈ s.codes.toList, isParameter c = true := by
  refine List.all_eq_true.1 ?_
  cases s with
  | tier t => cases t <;> decide
  | _ => decide

/-- A text without escapes holds no reset that a style would have to survive. -/
theorem renew_of_not_mem (style : List Char) {text : List Char} (h : '\x1b' ∉ text) :
    renew style text = text := by
  induction text with
  | nil => rfl
  | cons c text ih =>
      rw [List.mem_cons, not_or] at h
      rw [renew, ih h.2]
      rintro _ rfl
      exact absurd rfl h.1

end Style

namespace Fragment

open Style
open Text (Lacks lacks_join)

/-- Without its control sequences a fragment is its text. -/
theorem without_write {f : Fragment} (h : '\x1b' ∉ f.text.toList) (cs : List Char) :
    Text.without control (f.write true ++ cs) = f.write false ++ Text.without control cs := by
  obtain ⟨style, text⟩ := f
  cases style with
  | none => exact without_append_of_not_mem h cs
  | some s =>
      show Text.without control (s.paint text.toList ++ cs) = text.toList ++ Text.without control cs
      rw [paint, renew_of_not_mem _ h, List.append_assoc, List.append_assoc,
        without_sequence (isParameter_of_mem_codes s), without_append_of_not_mem h, reset,
        without_sequence (List.all_eq_true.1 (by decide))]

/-- Plain output is the texts of its fragments, one behind the other. -/
theorem writeAll_false (fs : List Fragment) :
    writeAll false fs = String.join (fs.map (·.text)) := by
  have hwrite : ∀ f : Fragment, f.write false = f.text.toList := by
    rintro ⟨_ | style, text⟩ <;> rfl
  rw [← String.toList_inj, writeAll, String.toList_ofList, String.toList_join, List.flatMap_map]
  exact List.flatMap_congr fun f _ => hwrite f

theorem writeAll_flatMap {α : Type} (colors : Bool) (notes : α → List Fragment) (xs : List α) :
    writeAll colors (xs.flatMap notes) =
      String.join (xs.map fun x => writeAll colors (notes x)) := by
  apply String.toList_inj.1
  rw [writeAll, String.toList_ofList, String.toList_join, List.flatMap_map, List.flatMap_assoc]
  exact List.flatMap_congr fun x _ => String.toList_ofList.symm

theorem lacks_writeAll_iff {c : Char} {fs : List Fragment} :
    Lacks c (writeAll false fs) ↔ ∀ f ∈ fs, Lacks c f.text := by
  rw [writeAll_false, lacks_join, List.forall_mem_map]

/-- Coloured output whose plain form has no escapes is plain without its control sequences. -/
theorem unstyled_writeAll {fs : List Fragment} (h : Lacks '\x1b' (writeAll false fs)) :
    unstyled (writeAll true fs) = writeAll false fs := by
  rw [lacks_writeAll_iff] at h
  have hfragments : Text.without control (fs.flatMap (write true)) = fs.flatMap (write false) := by
    induction fs with
    | nil => rfl
    | cons f fs ih =>
        obtain ⟨hf, hfs⟩ := List.forall_mem_cons.1 h
        rw [List.flatMap_cons, List.flatMap_cons, without_write hf, ih hfs]
  rw [unstyled, writeAll, String.toList_ofList, hfragments, writeAll]

end Fragment

/-! ## The words of a report -/

/-- Neither the path of a scan nor a message in it has a character; this is meant for characters of
one byte. -/
def FileScan.Lacks (c : Char) (s : FileScan) : Prop :=
  UInt8.ofNat c.toNat ∉ s.path.bytes ∧ ∀ p ∈ s.result.problems, c ∉ p.message.toList

namespace ConsoleReporter

open Text (Lacks Visible lacks_append lacks_join visible_append visible_number)

theorem visible_times {text : String} (h : Visible text) (n : Nat) : Visible (times n text) := by
  intro c hc
  rw [times, String.toList_join, List.mem_flatMap] at hc
  obtain ⟨s, hs, hc⟩ := hc
  obtain rfl := List.eq_of_mem_replicate hs
  exact h c hc

theorem visible_scoreBar (score : UInt8) : Visible (scoreBar score) := by
  unfold scoreBar threePlaces
  simp only [visible_append]
  have hdigits := visible_number score.toNat
  refine ⟨⟨⟨⟨⟨by decide, visible_times (by decide) _⟩, visible_times (by decide) _⟩, by decide⟩,
    visible_times (by decide) _, hdigits⟩, by decide⟩

theorem visible_icon (rule : Rule) : Visible rule.icon := by
  cases rule <;> decide

theorem visible_rule (rule : Rule) : Visible rule.name := by
  cases rule <;> decide

theorem visible_tier (t : Tier) : Visible t.name := by
  cases t <;> decide

theorem visible_tooltip (t : Tier) : Visible t.tooltip := by
  cases t <;> decide

theorem visible_scoreLabel (score : UInt8) : Visible (Score.label score) := by
  unfold Score.label
  split
  · decide
  split
  · decide
  split <;> decide

theorem visible_tierText (t : Tier) (score : UInt8) : Visible (t.text score) := by
  have hnumber := visible_number score.toNat
  cases t with
  | warning => exact visible_append.2 ⟨visible_append.2 ⟨by decide, hnumber⟩, by decide⟩
  | success => exact visible_append.2 ⟨by decide, hnumber⟩
  | failure => exact visible_append.2 ⟨by decide, hnumber⟩

theorem visible_label (p : Presenter) (result : ScanResult) :
    Visible (p.present result).label := by
  have htext (t : Tier) := visible_tierText t result.score
  rw [Presenter.present]
  cases p.tier result with
  | warning => exact htext .warning
  | success => exact visible_append.2 ⟨by decide, htext _⟩
  | failure => exact visible_append.2 ⟨by decide, htext _⟩

theorem visible_heading (score : UInt8) : Visible (IssueReport.heading score) :=
  visible_append.2 ⟨visible_append.2 ⟨by decide, visible_number _⟩, by decide⟩

/-! ## The lines of a report -/

/-- The lines above the problems. -/
def headLines (r : ConsoleReporter) (s : FileScan) : List String :=
  let view := r.presenter.present s.result
  ["", "🎓 Grade Guardian: " ++ s.path.shown,
    "   " ++ scoreBar view.score ++ " " ++ view.label,
    "   " ++ (Score.label view.score ++ " | " ++ view.tooltip), ""]

/-- The line of a problem, and the line of its rule if rules are named. -/
def issueLines (r : ConsoleReporter) (p : Problem) : List String :=
  ("   " ++ p.rule.icon ++ " " ++
    ("L" ++ toString p.location.line ++ ":" ++ toString p.location.column) ++ " " ++ p.message ++
    " " ++ ("(-" ++ toString p.deduction.toNat ++ ")")) ::
  if r.verbose then ["       ↳ " ++ p.rule.name] else []

/-- The lines about the problems of a result. -/
def findingLines (r : ConsoleReporter) (result : ScanResult) : List String :=
  if result.isPerfect then ["   " ++ IssueReport.congratulation]
  else ("   " ++ IssueReport.heading result.score) :: result.problems.flatMap r.issueLines

/-- The lines of the report on one scan. -/
def reportLines (r : ConsoleReporter) (s : FileScan) : List String :=
  r.headLines s ++ r.findingLines s.result ++ [""]

/-- Lines, each with a newline behind it. -/
def written (lines : List String) : String :=
  String.join (lines.map (· ++ "\n"))

theorem written_cons (line : String) (lines : List String) :
    written (line :: lines) = line ++ "\n" ++ written lines := by
  rw [written, List.map_cons, String.join_cons, written]

theorem written_append (lines others : List String) :
    written (lines ++ others) = written lines ++ written others := by
  rw [written, List.map_append, String.join_append, written, written]

/-- The fragments of a problem are its lines. -/
theorem join_problem (r : ConsoleReporter) (p : Problem) :
    String.join ((r.problem p).map (·.text)) = written (r.issueLines p) := by
  have harrow : "       ↳ " = "       " ++ ("↳" ++ " ") := by decide
  unfold problem issueLines written
  cases r.verbose <;>
    simp [-String.reduceAppend, Fragment.plain, Fragment.styled, String.append_assoc, harrow]

theorem join_findings (r : ConsoleReporter) (result : ScanResult) :
    String.join ((r.findings result).map (·.text)) = written (r.findingLines result) := by
  have hproblems : String.join ((result.problems.flatMap r.problem).map (·.text)) =
      written (result.problems.flatMap r.issueLines) := by
    induction result.problems with
    | nil => rfl
    | cons p problems ih =>
        rw [List.flatMap_cons, List.flatMap_cons, List.map_append, String.join_append,
          written_append, join_problem, ih]
  unfold findings findingLines IssueReport.ofResult
  cases result.isPerfect with
  | true => rfl
  | false =>
      simp only [Bool.false_eq_true, if_false]
      rw [List.map_append, String.join_append, hproblems, written_cons]
      simp [Fragment.plain, Fragment.styled, String.append_assoc]

/-- The fragments of a report are its lines. -/
theorem join_report (r : ConsoleReporter) (s : FileScan) :
    String.join ((r.report s).map (·.text)) = written (r.reportLines s) := by
  have hindent : "\n   " = "\n" ++ "   " := by decide
  have hempty : "\n\n" = "\n" ++ "\n" := by decide
  rw [report, reportLines, List.map_append, List.map_append, String.join_append, String.join_append,
    written_append, written_append, join_findings]
  congr 2
  unfold headLines written
  simp [-String.reduceAppend, Fragment.plain, Fragment.styled, String.append_assoc, hindent, hempty]

/-! ## What the lines lack -/

theorem toList_written (lines : List String) :
    (written lines).toList = Text.ofLines (lines.map String.toList) := by
  induction lines with
  | nil => rfl
  | cons line lines ih =>
      rw [written_cons, List.map_cons, Text.ofLines, ← ih]
      simp

theorem lacks_written {c : Char} (hc : c ≠ '\n') {lines : List String}
    (h : ∀ line ∈ lines, Lacks c line) : Lacks c (written lines) := by
  rw [written, lacks_join, List.forall_mem_map]
  intro line hline
  exact lacks_append.2 ⟨h line hline, by simpa [Lacks] using hc⟩

section Scan

variable {c : Char} {s : FileScan} (r : ConsoleReporter)

theorem lacks_shown (hpos : 0 < c.toNat) (hc : c < ' ') (h : s.Lacks c) : Lacks c s.path.shown := by
  intro hmem
  have hascii : c.toNat < 0x80 := Nat.lt_trans (show c.toNat < 0x20 from hc) (by decide)
  exact h.1 (Utf8.mem_of_mem_toShown hpos hascii hmem)

theorem lacks_issueLines (hc : c < ' ') {p : Problem} (h : Lacks c p.message) :
    ∀ line ∈ r.issueLines p, Lacks c line := by
  have hfront : Visible ("   " ++ p.rule.icon ++ " " ++
      ("L" ++ toString p.location.line ++ ":" ++ toString p.location.column) ++ " ") := by
    simp only [visible_append]
    exact ⟨⟨⟨⟨by decide, visible_icon _⟩, by decide⟩, ⟨⟨by decide, visible_number _⟩, by decide⟩,
      visible_number _⟩, by decide⟩
  have hback : Visible ("(-" ++ toString p.deduction.toNat ++ ")") := by
    simp only [visible_append]
    exact ⟨⟨by decide, visible_number _⟩, by decide⟩
  have hblank : Visible " " := by decide
  have hrule : Visible ("       ↳ " ++ p.rule.name) :=
    visible_append.2 ⟨by decide, visible_rule _⟩
  rw [issueLines, List.forall_mem_cons]
  constructor
  · exact lacks_append.2 ⟨lacks_append.2 ⟨lacks_append.2 ⟨hfront.lacks hc, h⟩, hblank.lacks hc⟩,
      hback.lacks hc⟩
  · cases r.verbose with
    | true => simpa using hrule.lacks hc
    | false => simp

theorem lacks_headLines (hc : c < ' ') (h : Lacks c s.path.shown) :
    ∀ line ∈ r.headLines s, Lacks c line := by
  have hempty : Visible "" := by decide
  have htitle : Visible "🎓 Grade Guardian: " := by decide
  have hstatus : Visible ("   " ++ scoreBar s.result.score ++ " " ++
      (r.presenter.present s.result).label) := by
    simp only [visible_append]
    exact ⟨⟨⟨by decide, visible_scoreBar _⟩, by decide⟩, visible_label _ _⟩
  have hhint : Visible ("   " ++ (Score.label s.result.score ++ " | " ++
      (r.presenter.present s.result).tooltip)) := by
    simp only [visible_append]
    exact ⟨by decide, ⟨visible_scoreLabel _, by decide⟩, visible_tooltip _⟩
  simp only [headLines, List.forall_mem_cons]
  exact ⟨hempty.lacks hc, lacks_append.2 ⟨htitle.lacks hc, h⟩, hstatus.lacks hc, hhint.lacks hc,
    hempty.lacks hc, by simp⟩

theorem lacks_findingLines (hc : c < ' ') {result : ScanResult}
    (h : ∀ p ∈ result.problems, Lacks c p.message) :
    ∀ line ∈ r.findingLines result, Lacks c line := by
  unfold findingLines
  split
  · have hpraise : Visible ("   " ++ IssueReport.congratulation) := by decide
    simpa using hpraise.lacks hc
  · have hheading : Visible ("   " ++ IssueReport.heading result.score) :=
      visible_append.2 ⟨by decide, visible_heading _⟩
    rw [List.forall_mem_cons, List.forall_mem_flatMap]
    exact ⟨hheading.lacks hc, fun p hp => r.lacks_issueLines hc (h p hp)⟩

/-- A control character that a scan does not bring stands in no line of its report. -/
theorem lacks_reportLines (hpos : 0 < c.toNat) (hc : c < ' ') (h : s.Lacks c) :
    ∀ line ∈ r.reportLines s, Lacks c line := by
  have hempty : Visible "" := by decide
  rw [reportLines, List.forall_mem_append, List.forall_mem_append]
  exact ⟨⟨r.lacks_headLines hc (lacks_shown hpos hc h), r.lacks_findingLines hc h.2⟩,
    by simpa using hempty.lacks hc⟩

/-- A report divided at its newlines. -/
theorem splitOn_report (h : s.Lacks '\n') :
    (Fragment.writeAll false (r.report s)).toList.splitOn '\n' =
      (r.reportLines s ++ [""]).map String.toList := by
  have hlines : ∀ line ∈ (r.reportLines s).map String.toList, '\n' ∉ line :=
    List.forall_mem_map.2 (r.lacks_reportLines (by decide) (by decide) h)
  have hsplit := Text.splitOn_ofLines_append hlines (List.not_mem_nil (a := '\n'))
  rw [Fragment.writeAll_false, join_report, toList_written, ← List.append_nil (Text.ofLines _),
    hsplit, List.map_append]
  rfl

/-! ## Reports without escapes -/

theorem lacks_report (h : s.Lacks '\x1b') :
    Lacks '\x1b' (Fragment.writeAll false (r.report s)) := by
  rw [Fragment.writeAll_false, join_report]
  exact lacks_written (by decide) (r.lacks_reportLines (by decide) (by decide) h)

theorem lacks_line (h : s.Lacks '\x1b') :
    Lacks '\x1b' (Fragment.writeAll false (r.line s)) := by
  have hpath := lacks_shown (by decide) (by decide) h
  have hscore := (visible_number s.result.score.toNat).lacks (c := '\x1b') (by decide)
  have htier := (visible_tier (r.presenter.present s.result).tier).lacks (c := '\x1b') (by decide)
  rw [Fragment.lacks_writeAll_iff]
  simp only [line, Fragment.plain, Fragment.styled, List.forall_mem_cons, lacks_append]
  exact ⟨⟨⟨⟨hpath, by decide⟩, hscore⟩, by decide⟩, htier, by decide, by simp⟩

end Scan

theorem lacks_summary (s : ScanSummary) :
    Lacks '\x1b' (Fragment.writeAll false (summary s)) := by
  have hnumber (n : Nat) : Lacks '\x1b' (toString n) := (visible_number n).lacks (by decide)
  have hrule : Lacks '\x1b' (times 60 "═") := (visible_times (by decide) 60).lacks (by decide)
  rw [Fragment.lacks_writeAll_iff]
  simp only [summary, Fragment.plain, Fragment.styled, List.forall_mem_cons, lacks_append, hnumber,
    hrule, List.not_mem_nil, false_implies, implies_true, and_true]
  -- Only fixed words are left.
  decide

theorem lacks_reportMany (r : ConsoleReporter) {scans : List FileScan}
    (h : ∀ s ∈ scans, s.Lacks '\x1b') (s : ScanSummary) :
    Lacks '\x1b' (Fragment.writeAll false (r.reportMany scans s)) := by
  have hrule : Lacks '\x1b' (times 60 "─" ++ "\n") :=
    lacks_append.2 ⟨(visible_times (by decide) 60).lacks (by decide), by decide⟩
  rw [Fragment.lacks_writeAll_iff, reportMany, List.forall_mem_append, List.forall_mem_flatMap]
  refine ⟨fun scan hscan => ?_, Fragment.lacks_writeAll_iff.1 (lacks_summary s)⟩
  rw [List.forall_mem_append]
  exact ⟨Fragment.lacks_writeAll_iff.1 (r.lacks_report (h scan hscan)),
    by simpa [Fragment.plain] using hrule⟩

/-! ## The reports on several scans -/

theorem length_issueLines (r : ConsoleReporter) (p : Problem) :
    (r.issueLines p).length = if r.verbose then 2 else 1 := by
  rw [issueLines]
  cases r.verbose <;> rfl

/-- If no path and no message has an escape and every score fits into its bar, then all coloured
reports are plain without their control sequences: the long and the short one on each scan, the
summary, and all of them together.  A plain report on any scan that lost points, and that brings no
newlines of its own, is a head, and then one line for each problem, or two, in their order. -/
theorem reports_unstyled (r : ConsoleReporter) (scans : List FileScan)
    (h : ∀ s ∈ scans, s.Lacks '\x1b' ∧ s.result.score ≤ Score.perfect) :
    (∀ s ∈ scans,
      Style.unstyled (Fragment.writeAll true (r.report s)) = Fragment.writeAll false (r.report s) ∧
      Style.unstyled (Fragment.writeAll true (r.line s)) = Fragment.writeAll false (r.line s)) ∧
    Style.unstyled (Fragment.writeAll true (summary (.ofScans scans))) =
      Fragment.writeAll false (summary (.ofScans scans)) ∧
    Style.unstyled (Fragment.writeAll true (r.reportMany scans (.ofScans scans))) =
      Fragment.writeAll false (r.reportMany scans (.ofScans scans)) ∧
    (∀ s : FileScan, s.result.score < Score.perfect → s.Lacks '\n' →
      (Fragment.writeAll false (r.report s)).toList.splitOn '\n' =
        (r.headLines s ++ ["   " ++ IssueReport.heading s.result.score] ++
          s.result.problems.flatMap r.issueLines ++ ["", ""]).map String.toList) ∧
    ∀ p, (r.issueLines p).length = if r.verbose then 2 else 1 := by
  refine ⟨fun s hs => ?_, Fragment.unstyled_writeAll (lacks_summary _),
    Fragment.unstyled_writeAll (r.lacks_reportMany (fun s hs => (h s hs).1) _),
    fun s hscore hnewline => ?_, r.length_issueLines⟩
  · have hescape := (h s hs).1
    exact ⟨Fragment.unstyled_writeAll (r.lacks_report hescape),
      Fragment.unstyled_writeAll (r.lacks_line hescape)⟩
  · have himperfect : s.result.isPerfect = false :=
      beq_eq_false_iff_ne.2 (UInt8.ne_of_lt hscore)
    rw [r.splitOn_report hnewline, reportLines, findingLines, himperfect]
    simp

/-- A scan with two problems, whose path has a letter of two bytes, and with a message that reads
like a reset without its escape. -/
def twoProblems : FileScan where
  path := .ofText "café.py"
  result := ⟨80, false, [⟨.debugPrint, "Ends in [0m", 10, ⟨2, 1⟩⟩,
    ⟨.unresolvedMarker, UnresolvedMarker.message, 10, ⟨4, 7⟩⟩]⟩

theorem reports_unstyled_twoProblems :
    Style.unstyled (Fragment.writeAll true (report ⟨⟨50⟩, true⟩ twoProblems)) =
      Fragment.writeAll false (report ⟨⟨50⟩, true⟩ twoProblems) ∧
    ((Fragment.writeAll false (report ⟨⟨50⟩, true⟩ twoProblems)).toList.splitOn '\n').length =
      12 := by
  have hescape : twoProblems.Lacks '\x1b' := ⟨by decide, by decide⟩
  have hnewline : twoProblems.Lacks '\n' := ⟨by decide, by decide⟩
  obtain ⟨hunstyled, -, -, hlines, -⟩ := reports_unstyled ⟨⟨50⟩, true⟩ [twoProblems]
    (by simpa using ⟨hescape, by decide⟩)
  refine ⟨(hunstyled twoProblems List.mem_cons_self).1, ?_⟩
  rw [hlines twoProblems (by decide) hnewline]
  rfl

end ConsoleReporter
end Neatness
