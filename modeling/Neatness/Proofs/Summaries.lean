import Mathlib.Data.Finset.Max
import Mathlib.Data.Rat.Floor
import Mathlib.Order.Bounds.Basic
import Neatness.Proofs.Analysis
import Neatness.Proofs.ExitStatus

/-!
# The numbers of a summary

A summary counts the files of a batch and their problems, and rounds the mean of their scores down
to a byte.

* `Score.mul_length_le_total` bounds a sum of scores by the least of them, beside
  `Score.total_le_mul_length` for the greatest, and `Score.total_eq_mul_length_iff` says when that
  bound is reached.
* `ScanSummary.toNat_averageScore` is the division behind the average: the quotient always fits into
  its byte.  So rounding hides no imperfect file (`ScanSummary.averageScore_eq_perfect_iff`).
* `ScanSummary.ofScans_adds_up` puts this together with the counts of a batch that is reordered or
  put together from two.  `CommandLine.averageScore_scanFiles_eq_perfect_iff` is what it means for
  the files of a run, whose scores never exceed a hundred.
-/

namespace Neatness

/-! ## Sums of scores -/

namespace Score

theorem total_perm {scores others : List UInt8} (h : scores.Perm others) :
    total scores = total others := by
  induction h with
  | nil => rfl
  | cons s _ ih => rw [total_cons, total_cons, ih]
  | swap s t scores => simp only [total_cons, Nat.add_left_comm]
  | trans _ _ ih ih' => exact ih.trans ih'

/-- The exact mean of scores. -/
def mean (scores : List UInt8) : Rat :=
  (scores.map fun s => (s.toNat : Rat)).sum / scores.length

theorem cast_total (scores : List UInt8) :
    (total scores : Rat) = (scores.map fun s => (s.toNat : Rat)).sum := by
  induction scores with
  | nil => rfl
  | cons s scores ih => rw [total_cons, Nat.cast_add, ih, List.map_cons, List.sum_cons]

theorem floor_mean (scores : List UInt8) : ⌊mean scores⌋₊ = total scores / scores.length := by
  rw [mean, ← cast_total, Rat.natFloor_natCast_div_natCast]

section Bounds

variable {scores : List UInt8} {low high : UInt8}

theorem mul_length_le_total (h : ∀ s ∈ scores, low ≤ s) :
    low.toNat * scores.length ≤ total scores := by
  induction scores with
  | nil => simp
  | cons s scores ih =>
      obtain ⟨hs, hscores⟩ := List.forall_mem_cons.1 h
      have hrest := ih hscores
      rw [UInt8.le_iff_toNat_le] at hs
      rw [List.length_cons, Nat.mul_succ, total_cons]
      omega

/-- One score below the bound keeps the sum below its own bound, whatever the others are. -/
theorem total_eq_mul_length_iff (h : ∀ s ∈ scores, s ≤ high) :
    total scores = high.toNat * scores.length ↔ ∀ s ∈ scores, s = high := by
  induction scores with
  | nil => simp
  | cons s scores ih =>
      obtain ⟨hs, hscores⟩ := List.forall_mem_cons.1 h
      have hrest := total_le_mul_length hscores
      rw [UInt8.le_iff_toNat_le] at hs
      rw [List.forall_mem_cons, ← ih hscores, ← UInt8.toNat_inj, List.length_cons, Nat.mul_succ,
        total_cons]
      omega

end Bounds

end Score

/-! ## Summaries -/

namespace ScanSummary

/-- The scores of some scans. -/
def scores (scans : List FileScan) : List UInt8 :=
  scans.map (·.result.score)

section

variable {scans others : List FileScan}

/-- The mean of bytes fits into a byte. -/
theorem toNat_averageScore (scans : List FileScan) :
    (ofScans scans).averageScore.toNat = Score.total (scores scans) / scans.length := by
  have hsum := Score.total_le (scores scans)
  rw [scores, List.length_map] at hsum
  have hfits : Score.total (scores scans) / scans.length ≤ 255 :=
    Nat.div_le_of_le_mul (by rwa [Nat.mul_comm])
  show (Score.total (scores scans) / scans.length).toUInt8.toNat = _
  rw [Nat.toUInt8_eq, UInt8.toNat_ofNat_of_lt' (Nat.lt_succ_of_le hfits)]

theorem le_averageScore (hscans : scans ≠ []) {low : UInt8} (h : ∀ s ∈ scores scans, low ≤ s) :
    low ≤ (ofScans scans).averageScore := by
  have hsum := Score.mul_length_le_total h
  rw [scores, List.length_map] at hsum
  rw [UInt8.le_iff_toNat_le, toNat_averageScore,
    Nat.le_div_iff_mul_le (List.length_pos_iff.2 hscans)]
  exact hsum

theorem averageScore_le {high : UInt8} (h : ∀ s ∈ scores scans, s ≤ high) :
    (ofScans scans).averageScore ≤ high := by
  have hsum := Score.total_le_mul_length h
  rw [scores, List.length_map] at hsum
  rw [UInt8.le_iff_toNat_le, toNat_averageScore]
  exact Nat.div_le_of_le_mul (by rwa [Nat.mul_comm])

/-- The average lies between the least and the greatest score. -/
theorem exists_bounds_averageScore (hscans : scans ≠ []) :
    ∃ low high, IsLeast {s | s ∈ scores scans} low ∧ IsGreatest {s | s ∈ scores scans} high ∧
      low ≤ (ofScans scans).averageScore ∧ (ofScans scans).averageScore ≤ high := by
  have hne : (scores scans).toFinset.Nonempty := by simpa [scores] using hscans
  obtain ⟨low, hlow, hleast⟩ := Finset.exists_min_image _ UInt8.toNat hne
  obtain ⟨high, hhigh, hgreatest⟩ := Finset.exists_max_image _ UInt8.toNat hne
  simp only [List.mem_toFinset, ← UInt8.le_iff_toNat_le] at hlow hleast hhigh hgreatest
  exact ⟨low, high, ⟨hlow, hleast⟩, ⟨hhigh, hgreatest⟩, le_averageScore hscans hleast,
    averageScore_le hgreatest⟩

/-- Without scores above a hundred, the mean is a hundred only if every score is. -/
theorem averageScore_eq_perfect_iff (hscans : scans ≠ [])
    (hle : ∀ s ∈ scans, s.result.score ≤ Score.perfect) :
    (ofScans scans).averageScore = Score.perfect ↔ ∀ s ∈ scans, s.result.isPerfect = true := by
  have hscores : ∀ s ∈ scores scans, s ≤ Score.perfect := by
    intro s hs
    obtain ⟨scan, hscan, rfl⟩ := List.mem_map.1 hs
    exact hle scan hscan
  have hlength : (scores scans).length = scans.length := List.length_map _
  have hpos := List.length_pos_iff.2 hscans
  have hbound := Score.total_le_mul_length hscores
  -- Rounded down, the quotient reaches the bound exactly if the sum does.
  have hquotient : Score.total (scores scans) / scans.length = Score.perfect.toNat ↔
      Score.total (scores scans) = Score.perfect.toNat * (scores scans).length := by
    rw [hlength] at hbound ⊢
    rw [Nat.div_eq_iff hpos]
    omega
  calc (ofScans scans).averageScore = Score.perfect
      ↔ Score.total (scores scans) / scans.length = Score.perfect.toNat := by
        rw [← UInt8.toNat_inj, toNat_averageScore]
    _ ↔ ∀ s ∈ scores scans, s = Score.perfect := by
        rw [hquotient, Score.total_eq_mul_length_iff hscores]
    _ ↔ ∀ s ∈ scans, s.result.isPerfect = true := by
        simp only [scores, List.forall_mem_map, ScanResult.isPerfect, beq_iff_eq]

theorem perfectFiles_eq_filesScanned_iff (scans : List FileScan) :
    (ofScans scans).perfectFiles = (ofScans scans).filesScanned ↔
      ∀ s ∈ scans, s.result.isPerfect = true :=
  List.countP_eq_length

/-- The order of the files does not count. -/
theorem ofScans_perm (h : others.Perm scans) : ofScans others = ofScans scans := by
  have htotal := Score.total_perm (h.map (·.result.score))
  have hproblems := (h.flatMap_right (·.result.problems)).length_eq
  unfold ofScans
  rw [htotal, h.length_eq, h.countP_eq, h.countP_eq, hproblems]

/-- The counts of a summary are those of two others together. -/
structure Adds (first later whole : ScanSummary) : Prop where
  filesScanned : whole.filesScanned = first.filesScanned + later.filesScanned
  perfectFiles : whole.perfectFiles = first.perfectFiles + later.perfectFiles
  fatalFiles : whole.fatalFiles = first.fatalFiles + later.fatalFiles
  totalProblems : whole.totalProblems = first.totalProblems + later.totalProblems

theorem adds_ofScans_append (first later : List FileScan) :
    Adds (ofScans first) (ofScans later) (ofScans (first ++ later)) where
  filesScanned := List.length_append
  perfectFiles := List.countP_append
  fatalFiles := List.countP_append
  totalProblems := by
    show ((first ++ later).flatMap _).length = _
    rw [List.flatMap_append, List.length_append]
    rfl

end

/-- A summary adds up: the average is the mean of the scores rounded down, between the least and the
greatest of them, and if no score exceeds a hundred it is a hundred exactly if all files are perfect.
No number depends on the order of the files, and the counts of two batches together are the sums of
their counts. -/
theorem ofScans_adds_up (scans : List FileScan) (hscans : scans ≠ []) :
    (∃ low high, IsLeast {s | s ∈ scores scans} low ∧ IsGreatest {s | s ∈ scores scans} high ∧
      low ≤ (ofScans scans).averageScore ∧ (ofScans scans).averageScore ≤ high) ∧
    (ofScans scans).averageScore.toNat = ⌊Score.mean (scores scans)⌋₊ ∧
    ((∀ s ∈ scans, s.result.score ≤ 100) →
      ((ofScans scans).averageScore = 100 ↔
        (ofScans scans).perfectFiles = (ofScans scans).filesScanned)) ∧
    (∀ others, others.Perm scans → ofScans others = ofScans scans) ∧
    ∀ first later, first ++ later = scans →
      Adds (ofScans first) (ofScans later) (ofScans scans) := by
  refine ⟨exists_bounds_averageScore hscans, ?_, fun hle => ?_, fun others h => ofScans_perm h, ?_⟩
  · rw [toNat_averageScore, Score.floor_mean, scores, List.length_map]
  · exact (averageScore_eq_perfect_iff hscans hle).trans
      (perfectFiles_eq_filesScanned_iff scans).symm
  · rintro first later rfl
    exact adds_ofScans_append first later

/-- A file with a score and no problems. -/
def scored (name : String) (score : UInt8) (fatal : Bool) : FileScan :=
  ⟨Path.ofText name, ⟨score, fatal, []⟩⟩

/-- Two perfect files around one that has lost a point. -/
def nearlyPerfect : List FileScan :=
  [scored "a.py" 100 false, scored "b.py" 99 true, scored "c.py" 100 false]

theorem ofScans_adds_up_nearlyPerfect :
    ⌊Score.mean (scores nearlyPerfect)⌋₊ = 99 ∧ (ofScans nearlyPerfect).averageScore ≠ 100 ∧
    (ofScans nearlyPerfect).perfectFiles ≠ (ofScans nearlyPerfect).filesScanned ∧
    ofScans nearlyPerfect.reverse = ofScans nearlyPerfect ∧
    Adds (ofScans [scored "a.py" 100 false])
      (ofScans [scored "b.py" 99 true, scored "c.py" 100 false]) (ofScans nearlyPerfect) := by
  obtain ⟨-, hfloor, hperfect, hperm, hadds⟩ := ofScans_adds_up nearlyPerfect (by decide)
  have haverage : (ofScans nearlyPerfect).averageScore = 99 := by decide
  have hother : (ofScans nearlyPerfect).averageScore ≠ 100 := by rw [haverage]; decide
  refine ⟨?_, hother, fun hall => ?_, hperm _ (List.reverse_perm _), hadds [_] [_, _] rfl⟩
  · rw [← hfloor, haverage]
    rfl
  · exact hother ((hperfect (by decide)).2 hall)

end ScanSummary

/-! ## The summary of a run -/

namespace CommandLine

variable {d : Disk} {r : ScanRequest} {c : Config}

theorem score_le_perfect_of_scan {f : Path} {s : FileScan} (h : c.scan d f = .ok s) :
    s.result.score ≤ Score.perfect := by
  obtain ⟨settings, text, -, -, rfl⟩ := scan_eq_ok_iff.1 h
  obtain ⟨sum, -, hsum, -, hscore⟩ := (balances_analyze settings.table text
    settings.studentName).score_eq
  rw [UInt8.le_iff_toNat_le]
  show (analyze settings.table text settings.studentName).score.toNat ≤ 100
  omega

/-- The summary of a run says a hundred exactly if every file that was scanned is perfect. -/
theorem averageScore_scanFiles_eq_perfect_iff {files : List Path}
    (h : (scanFiles d r c files).scans ≠ []) :
    (ScanSummary.ofScans (scanFiles d r c files).scans).averageScore = Score.perfect ↔
      ∀ s ∈ (scanFiles d r c files).scans, s.result.isPerfect = true := by
  apply ScanSummary.averageScore_eq_perfect_iff h
  intro s hs
  obtain ⟨f, -, hscan⟩ := mem_scans_scanFiles_iff.1 hs
  exact score_le_perfect_of_scan hscan

end CommandLine
end Neatness
