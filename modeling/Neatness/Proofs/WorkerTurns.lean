import Mathlib.Data.List.Nodup
import Neatness.Proofs.ExitStatus
import Neatness.Proofs.PlainReports

/-!
# Workers that take turns

Workers that scan the files of a batch share the slots for the scans, a flag that says whether a
scan has failed, and the messages about such files.  A worker with a failed scan first raises the
flag and then sends the message, and turns of others may come in between.

* `Shared` is what they share, with the stage of every file; `Shared.turn` is one turn.
* `Shared.turn_cases` says all that a turn can do.  `Shared.Follows` is what holds after the files
  with some numbers are done, in this order; every turn keeps it (`Shared.exists_follows_turn`).
* When all files are done, the workers have followed a schedule that takes every file once
  (`Shared.exists_schedule`), and two turns for each file are enough for that
  (`Shared.isDone_after`).
* `writeAll_failureMessages` is what is said about files that cannot be scanned, and
  `reportScans_alike` says that nothing else of a report depends on them.
* `FindsSame` compares a batch with scanning one file after the other.
-/

namespace Neatness
namespace CommandLine

variable {scan : Path → Except ScanError FileScan} {files : List Path}

/-- How far the work on a file is. -/
inductive Stage where
  | waiting
  /-- The scan has failed, but no message says so yet. -/
  | failed
  /-- The scan is in its slot, or the message is out. -/
  | done
deriving DecidableEq, Repr

/-- Turns until a file is done, at most. -/
def Stage.left : Stage → Nat
  | waiting => 2
  | failed => 1
  | done => 0

/-- What the workers share. -/
structure Shared extends Slots where
  hadErrors : Bool := false
  stages : List Stage

namespace Shared

/-- Before the first turn. -/
def start (files : List Path) : Shared where
  slots := files.map fun _ => none
  stages := files.map fun _ => .waiting

/-- A turn of the worker that has a file. -/
def turn (scan : Path → Except ScanError FileScan) (files : List Path) (s : Shared) (i : Nat) :
    Shared :=
  match files[i]?, s.stages[i]? with
  | some f, some .waiting =>
    match scan f with
    | .ok _ => { s with toSlots := s.toSlots.fill scan files i, stages := s.stages.set i .done }
    | .error _ => { s with hadErrors := true, stages := s.stages.set i .failed }
  | some _, some .failed =>
    { s with toSlots := s.toSlots.fill scan files i, stages := s.stages.set i .done }
  | _, _ => s

/-- What is shared after some turns. -/
def after (scan : Path → Except ScanError FileScan) (files : List Path) (turns : List Nat) :
    Shared :=
  turns.foldl (turn scan files) (start files)

/-- All files are done. -/
def IsDone (s : Shared) : Prop :=
  ∀ stage ∈ s.stages, stage = .done

instance (s : Shared) : Decidable s.IsDone :=
  inferInstanceAs (Decidable (∀ stage ∈ s.stages, stage = .done))

/-- The scans in the slots, and the failures in the order of their messages. -/
def result (s : Shared) : Scans :=
  ⟨s.slots.filterMap id, s.failures.reverse⟩

/-! ## One turn -/

/-- A turn raises the flag for a file that cannot be scanned, or completes a file, or finds
nothing to do. -/
theorem turn_cases (s : Shared) (i : Nat) :
    s.turn scan files i = s ∧ (files[i]? = none ∨ s.stages[i]? = none ∨ s.stages[i]? = some .done) ∨
    (∃ f, files[i]? = some f ∧ failed? scan f ≠ none ∧ s.stages[i]? = some .waiting ∧
      s.turn scan files i = { s with hadErrors := true, stages := s.stages.set i .failed }) ∨
    ∃ f, files[i]? = some f ∧
      (s.stages[i]? = some .waiting ∧ failed? scan f = none ∨ s.stages[i]? = some .failed) ∧
      s.turn scan files i =
        { s with toSlots := s.toSlots.fill scan files i, stages := s.stages.set i .done } := by
  unfold turn
  cases hfile : files[i]? with
  | none => exact .inl ⟨rfl, .inl rfl⟩
  | some f =>
      cases hstage : s.stages[i]? with
      | none => exact .inl ⟨rfl, .inr (.inl rfl)⟩
      | some stage =>
          cases stage with
          | done => exact .inl ⟨rfl, .inr (.inr rfl)⟩
          | failed => exact .inr (.inr ⟨f, rfl, .inr rfl, rfl⟩)
          | waiting =>
              cases hscan : scan f with
              | ok r =>
                  exact .inr (.inr
                    ⟨f, rfl, .inl ⟨rfl, by simp [failed?, hscan]⟩, by simp [hscan]⟩)
              | error e =>
                  exact .inr (.inl ⟨f, rfl, by simp [failed?, hscan], rfl, by simp [hscan]⟩)

/-- What is shared after the files with the numbers `order` are done, in this order. -/
structure Follows (scan : Path → Except ScanError FileScan) (files : List Path)
    (order : List Nat) (s : Shared) : Prop where
  /-- The slots and the failures are those of the schedule. -/
  slots_eq : s.toSlots = order.foldl (Slots.fill scan files) (start files).toSlots
  /-- No file is done twice. -/
  nodup : order.Nodup
  length_eq : s.stages.length = files.length
  /-- The stages say which files are done. -/
  mem_iff : ∀ i, i ∈ order ↔ s.stages[i]? = some .done
  /-- The flag is up if some file cannot be scanned and has been tried. -/
  hadErrors_iff : s.hadErrors = true ↔
    ∃ (i : Nat) (f : Path), files[i]? = some f ∧ failed? scan f ≠ none ∧
      s.stages[i]? ≠ some Stage.waiting

theorem getElem?_stages_start (files : List Path) (i : Nat) :
    (start files).stages[i]? = files[i]?.map fun _ => Stage.waiting :=
  List.getElem?_map

theorem follows_start (scan : Path → Except ScanError FileScan) (files : List Path) :
    Follows scan files [] (start files) where
  slots_eq := rfl
  nodup := .nil
  length_eq := by simp [start]
  mem_iff i := by
    rw [getElem?_stages_start]
    cases files[i]? <;> simp
  hadErrors_iff := by
    constructor
    · intro hflag
      cases hflag
    · rintro ⟨i, f, hfile, -, hstage⟩
      rw [getElem?_stages_start, hfile] at hstage
      exact absurd rfl hstage

/-- A turn completes one more file, or leaves the files as they are. -/
theorem exists_follows_turn {order : List Nat} {s : Shared} (h : Follows scan files order s)
    (i : Nat) : ∃ order', Follows scan files order' (s.turn scan files i) := by
  rcases s.turn_cases i with ⟨heq, -⟩ | ⟨f, hfile, hfails, hstage, heq⟩ | ⟨f, hfile, hstage, heq⟩
  · rw [heq]
    exact ⟨order, h⟩
  · -- The flag goes up; the message will complete the file.
    have hi : i < s.stages.length := (List.getElem?_eq_some_iff.1 hstage).1
    rw [heq]
    refine ⟨order, h.slots_eq, h.nodup, by simp [h.length_eq], fun j => ?_, ?_⟩
    · rw [h.mem_iff, List.getElem?_set]
      by_cases hj : i = j
      · subst hj
        rw [if_pos rfl, if_pos hi, hstage]
        simp
      · rw [if_neg hj]
    · refine ⟨fun _ => ⟨i, f, hfile, hfails, ?_⟩, fun _ => rfl⟩
      simp [List.getElem?_set_self hi]
  · have hi : i < s.stages.length := by
      rcases hstage with ⟨hstage, -⟩ | hstage <;> exact (List.getElem?_eq_some_iff.1 hstage).1
    have hnew : i ∉ order := by
      rw [h.mem_iff]
      rcases hstage with ⟨hstage, -⟩ | hstage <;> simp [hstage]
    rw [heq]
    refine ⟨order ++ [i], ?_, ?_, by simp [h.length_eq], fun j => ?_, ?_⟩
    · rw [List.foldl_append, ← h.slots_eq]
      rfl
    · rw [List.nodup_append]
      refine ⟨h.nodup, List.nodup_singleton i, fun j hj k hk heq => ?_⟩
      rw [List.mem_singleton.1 hk] at heq
      exact hnew (heq ▸ hj)
    · rw [List.mem_append, List.mem_singleton, h.mem_iff, List.getElem?_set]
      by_cases hj : i = j
      · subst hj
        simp [hi]
      · simp [hj, Ne.symm hj]
    · -- Only a file that could be scanned leaves the first stage here.
      show s.hadErrors = true ↔ _
      rw [h.hadErrors_iff]
      refine exists_congr fun j => exists_congr fun g => and_congr_right fun hg =>
        and_congr_right fun hfails => ?_
      rw [List.getElem?_set]
      by_cases hj : i = j
      · subst hj
        obtain rfl := Option.some.inj (hfile.symm.trans hg)
        rcases hstage with ⟨-, hscans⟩ | hstage
        · exact absurd hscans hfails
        · rw [if_pos rfl, if_pos hi, hstage]
          simp
      · rw [if_neg hj]

/-! ## A whole run -/

theorem exists_follows_after (scan : Path → Except ScanError FileScan) (files : List Path)
    (turns : List Nat) : ∃ order, Follows scan files order (after scan files turns) := by
  have hrun : ∀ (turns order : List Nat) (s : Shared), Follows scan files order s →
      ∃ order', Follows scan files order' (turns.foldl (turn scan files) s) := by
    intro turns
    induction turns with
    | nil => exact fun order s h => ⟨order, h⟩
    | cons i turns ih =>
        intro order s h
        obtain ⟨order', h'⟩ := exists_follows_turn h i
        exact ih order' _ h'
  exact hrun turns [] _ (follows_start scan files)

/-- Workers that are done with all files have followed a schedule, and the flag says whether a file
could not be scanned. -/
theorem exists_schedule {turns : List Nat} (h : (after scan files turns).IsDone) :
    ∃ schedule, schedule.Perm (List.range files.length) ∧
      (after scan files turns).result = scanScheduled scan files schedule ∧
      ((after scan files turns).hadErrors = true ↔ ∃ f ∈ files, failed? scan f ≠ none) := by
  obtain ⟨order, horder⟩ := exists_follows_after scan files turns
  have hstage : ∀ i, i < files.length → (after scan files turns).stages[i]? = some .done := by
    intro i hi
    rw [← horder.length_eq] at hi
    rw [List.getElem?_eq_getElem hi, h _ (List.getElem_mem hi)]
  refine ⟨order, ?_, ?_, ?_⟩
  · rw [List.perm_ext_iff_of_nodup horder.nodup List.nodup_range]
    intro i
    rw [horder.mem_iff, List.mem_range, ← horder.length_eq]
    constructor
    · exact fun hdone => (List.getElem?_eq_some_iff.1 hdone).1
    · exact fun hi => hstage i (horder.length_eq ▸ hi)
  · rw [result, horder.slots_eq]
    rfl
  · rw [horder.hadErrors_iff]
    constructor
    · rintro ⟨i, f, hfile, hfails, -⟩
      exact ⟨f, List.mem_of_getElem? hfile, hfails⟩
    · rintro ⟨f, hmem, hfails⟩
      obtain ⟨i, hi, rfl⟩ := List.getElem_of_mem hmem
      refine ⟨i, _, List.getElem?_eq_getElem hi, hfails, ?_⟩
      rw [hstage i hi]
      simp

/-- Turns until the file with a number is done, at most. -/
def leftAt (s : Shared) (i : Nat) : Nat :=
  (s.stages[i]?.map Stage.left).getD 0

theorem leftAt_turn (scan : Path → Except ScanError FileScan) {s : Shared}
    (hlength : s.stages.length = files.length) (i j : Nat) :
    (s.turn scan files i).leftAt j ≤ s.leftAt j - [i].count j ∧
      (s.turn scan files i).stages.length = files.length := by
  unfold leftAt
  rcases s.turn_cases i with ⟨heq, hnothing⟩ | ⟨f, -, -, hstage, heq⟩ | ⟨f, -, hstage, heq⟩
  · rw [heq]
    refine ⟨?_, hlength⟩
    by_cases hj : i = j
    · subst hj
      have hzero : (s.stages[i]?.map Stage.left).getD 0 = 0 := by
        rcases hnothing with hfile | hstage | hstage
        · rw [List.getElem?_eq_none_iff, ← hlength, ← List.getElem?_eq_none_iff] at hfile
          rw [hfile]
          rfl
        · rw [hstage]
          rfl
        · rw [hstage]
          rfl
      rw [hzero]
      exact Nat.zero_le _
    · simp [hj]
  · have hi : i < s.stages.length := (List.getElem?_eq_some_iff.1 hstage).1
    rw [heq]
    refine ⟨?_, by simpa using hlength⟩
    by_cases hj : i = j
    · subst hj
      rw [List.getElem?_set_self hi, hstage, List.count_singleton_self]
      exact Nat.le_refl 1
    · simp [hj]
  · rw [heq]
    refine ⟨?_, by simpa using hlength⟩
    rw [List.getElem?_set]
    by_cases hj : i = j
    · subst hj
      by_cases hi : i < s.stages.length <;> simp [hi, Stage.left]
    · simp [hj]

/-- Two turns for each file are enough, whatever comes in between. -/
theorem isDone_after {turns : List Nat} (h : ∀ i < files.length, 2 ≤ turns.count i) :
    (after scan files turns).IsDone := by
  have hrun : ∀ (turns : List Nat) (s : Shared), s.stages.length = files.length → ∀ j,
      (turns.foldl (turn scan files) s).leftAt j ≤ s.leftAt j - turns.count j ∧
        (turns.foldl (turn scan files) s).stages.length = files.length := by
    intro turns
    induction turns with
    | nil => exact fun s hlength j => ⟨Nat.le_refl _, hlength⟩
    | cons i turns ih =>
        intro s hlength j
        obtain ⟨hturn, hsame⟩ := leftAt_turn scan hlength i j
        obtain ⟨hlater, hend⟩ := ih _ hsame j
        refine ⟨?_, hend⟩
        have hcount : ([i] ++ turns).count j = [i].count j + turns.count j := List.count_append
        rw [List.singleton_append] at hcount
        rw [List.foldl_cons, hcount]
        omega
  intro stage hmem
  obtain ⟨i, hi, rfl⟩ := List.getElem_of_mem hmem
  obtain ⟨hleft, hlength⟩ := hrun turns (start files) (by simp [start]) i
  have hfile : i < files.length := hlength ▸ hi
  have htwo : (start files).leftAt i = 2 := by simp [leftAt, start, hfile, Stage.left]
  have hzero : (after scan files turns).leftAt i = 0 := by
    have hcount := h i hfile
    rw [htwo] at hleft
    unfold after
    omega
  rw [leftAt, List.getElem?_eq_getElem hi] at hzero
  cases hstage : (after scan files turns).stages[i] with
  | done => rfl
  | waiting => simp [hstage, Stage.left] at hzero
  | failed => simp [hstage, Stage.left] at hzero

end Shared

/-! ## What is said about failures -/

/-- The line about a file that could not be scanned. -/
def failureLine (f : Path) (e : ScanError) : String :=
  "Error: Failed to scan " ++ f.shown ++ ": " ++ e.fullMessage ++ "\n"

theorem writeAll_message (style : Style) (word text : String) :
    Fragment.writeAll false (message style word text) = word ++ ": " ++ text ++ "\n" := by
  rw [Fragment.writeAll_false]
  apply String.toList_inj.1
  simp [message, Fragment.styled, Fragment.plain]

/-- Unless a run is quiet, it has a line for every failure. -/
theorem writeAll_failureMessages (r : ScanRequest) (failures : List (Path × ScanError)) :
    Fragment.writeAll false (failureMessages r failures) =
      if r.quiet then "" else String.join (failures.map fun (f, e) => failureLine f e) := by
  unfold failureMessages
  cases r.quiet with
  | true =>
      rw [if_pos rfl, if_pos rfl]
      rfl
  | false =>
      rw [if_neg (by decide), if_neg (by decide), Fragment.writeAll_flatMap]
      refine congrArg String.join (List.map_congr_left fun failure _ => ?_)
      have hword : "Error: Failed to scan " = "Error" ++ ": " ++ "Failed to scan " := rfl
      obtain ⟨f, e⟩ := failure
      rw [writeAll_message]
      unfold failureLine
      rw [hword]
      simp only [String.append_assoc]

/-- What a run writes about scans depends on the failures only in the messages about them, which
come first, and in whether there are any. -/
theorem reportScans_alike (r : ScanRequest) (c : Config) {s u : Scans} (hscans : s.scans = u.scans)
    (hclean : s.failures.isEmpty = u.failures.isEmpty) :
    ∃ out later exit, reportScans r c s = ⟨⟨out, failureMessages r s.failures ++ later⟩, exit⟩ ∧
      reportScans r c u = ⟨⟨out, failureMessages r u.failures ++ later⟩, exit⟩ := by
  unfold reportScans
  rw [hscans]
  by_cases hnone : u.scans.isEmpty = true
  · rw [if_pos hnone, if_pos hnone]
    exact ⟨_, _, _, rfl, rfl⟩
  · rw [if_neg hnone, if_neg hnone]
    cases c.settingsFor none with
    | error e => exact ⟨_, _, _, rfl, rfl⟩
    | ok settings =>
        unfold conclude
        rw [hscans, hclean]
        cases c.threshold with
        | none => exact ⟨_, [], _, by rw [List.append_nil]; rfl, by rw [List.append_nil]; rfl⟩
        | some t =>
            simp only
            split
            · exact ⟨_, [], _, by rw [List.append_nil], by rw [List.append_nil]⟩
            · exact ⟨_, _, _, rfl, rfl⟩

/-! ## Several workers and one -/

/-- The file can be scanned. -/
def isScanned (scan : Path → Except ScanError FileScan) (f : Path) : Bool :=
  (scanned? scan f).isSome

/-- One worker scans the files that can be scanned, in their order. -/
theorem paths_scans_scanAll (d : Disk) (c : Config) (files : List Path) :
    (scanAll (c.scan d) files).scans.map (·.path) = files.filter (isScanned (c.scan d)) := by
  rw [scans_scanAll, List.map_filterMap, ← List.filterMap_eq_filter]
  refine List.filterMap_congr fun f _ => ?_
  unfold isScanned scanned?
  cases hscan : c.scan d f with
  | error e => simp [Option.guard, hscan, Except.toOption]
  | ok s =>
      obtain ⟨settings, text, -, -, rfl⟩ := scan_eq_ok_iff.1 hscan
      simp [Option.guard, hscan, Except.toOption]

/-- And it fails with the others, each as often as it is there. -/
theorem paths_failures_scanAll (scan : Path → Except ScanError FileScan) (files : List Path) :
    (scanAll scan files).failures.map Prod.fst = files.filter (!isScanned scan ·) := by
  rw [failures_scanAll, List.map_filterMap, ← List.filterMap_eq_filter]
  refine List.filterMap_congr fun f _ => ?_
  unfold isScanned scanned? failed?
  cases hscan : scan f <;> simp [Option.guard, hscan, Except.toOption]

/-- Several workers find the same as one who scans file after file: the scans in the same order, the
same flag, and the same failures, each as often.  What is written is the same, too, but for the order
of the lines about failures; each failure has its line, unless the run is quiet. -/
structure FindsSame (scan : Path → Except ScanError FileScan) (files : List Path)
    (hadErrors : Bool) (found : Scans) : Prop where
  scans_eq : found.scans = (scanAll scan files).scans
  hadErrors_eq : hadErrors = !(scanAll scan files).failures.isEmpty
  failures_perm : found.failures.Perm (scanAll scan files).failures
  failed_perm : (found.failures.map Prod.fst).Perm (files.filter (!isScanned scan ·))
  lines_eq : ∀ r : ScanRequest, Fragment.writeAll false (failureMessages r found.failures) =
    if r.quiet then "" else String.join (found.failures.map fun (f, e) => failureLine f e)
  /-- The messages about failures come first, and the rest is the same. -/
  outcome_eq : ∀ (r : ScanRequest) (c : Config), ∃ out later exit,
    reportScans r c found = ⟨⟨out, failureMessages r found.failures ++ later⟩, exit⟩ ∧
    reportScans r c (scanAll scan files) =
      ⟨⟨out, failureMessages r (scanAll scan files).failures ++ later⟩, exit⟩

/-- The scans and the failures decide on all that is said. -/
theorem findsSame_of_perm {hadErrors : Bool} {found : Scans}
    (hscans : found.scans = (scanAll scan files).scans)
    (hfailures : found.failures.Perm (scanAll scan files).failures)
    (hflag : hadErrors = !(scanAll scan files).failures.isEmpty) :
    FindsSame scan files hadErrors found where
  scans_eq := hscans
  hadErrors_eq := hflag
  failures_perm := hfailures
  failed_perm := by
    rw [← paths_failures_scanAll]
    exact hfailures.map Prod.fst
  lines_eq r := writeAll_failureMessages r found.failures
  outcome_eq r c := reportScans_alike r c hscans hfailures.isEmpty_eq

/-- A schedule that takes every file once finds the same. -/
theorem findsSame_scanScheduled (scan : Path → Except ScanError FileScan) {schedule : List Nat}
    (h : schedule.Perm (List.range files.length)) :
    FindsSame scan files (!(scanScheduled scan files schedule).failures.isEmpty)
      (scanScheduled scan files schedule) :=
  findsSame_of_perm (scanScheduled_scans h) (scanScheduled_failures h)
    (congrArg not (scanScheduled_failures h).isEmpty_eq)

/-- So do workers that take turns, once they are done. -/
theorem findsSame_after {turns : List Nat} (h : (Shared.after scan files turns).IsDone) :
    FindsSame scan files (Shared.after scan files turns).hadErrors
      (Shared.after scan files turns).result := by
  obtain ⟨schedule, hschedule, hresult, hflag⟩ := Shared.exists_schedule h
  rw [hresult]
  refine findsSame_of_perm (scanScheduled_scans hschedule) (scanScheduled_failures hschedule) ?_
  rw [Bool.eq_iff_iff, hflag, failures_scanAll, Bool.not_eq_true', ← Bool.not_eq_true,
    List.isEmpty_iff, List.filterMap_eq_nil_iff]
  simp

/-- So does every request, whether it asks for several workers or not. -/
theorem findsSame_scanFiles (d : Disk) (r : ScanRequest) (c : Config) (files : List Path) :
    FindsSame (c.scan d) files (!(scanFiles d r c files).failures.isEmpty)
      (scanFiles d r c files) := by
  unfold scanFiles
  split
  · exact findsSame_scanScheduled _ (List.Perm.refl _)
  · exact findsSame_of_perm rfl (.refl _) rfl

/-- Several workers and one.  Workers that share their findings and take turns in any order find
the same as one worker: the same scans in the order of the files, the same flag, and the same files
that cannot be scanned, each with its line once for every time that it is listed.  They are done at
the latest when each has had two turns for every file.  The same holds for every schedule that
takes each file once, and for every request. -/
theorem workers_find_same (d : Disk) (c : Config) (files : List Path) :
    (∀ turns, (Shared.after (c.scan d) files turns).IsDone →
      FindsSame (c.scan d) files (Shared.after (c.scan d) files turns).hadErrors
        (Shared.after (c.scan d) files turns).result) ∧
    (∀ turns : List Nat, (∀ i < files.length, 2 ≤ turns.count i) →
      (Shared.after (c.scan d) files turns).IsDone) ∧
    (∀ schedule : List Nat, schedule.Perm (List.range files.length) →
      FindsSame (c.scan d) files (!(scanScheduled (c.scan d) files schedule).failures.isEmpty)
        (scanScheduled (c.scan d) files schedule)) ∧
    (∀ r, FindsSame (c.scan d) files (!(scanFiles d r c files).failures.isEmpty)
      (scanFiles d r c files)) ∧
    (scanAll (c.scan d) files).scans.map (·.path) = files.filter (isScanned (c.scan d)) ∧
    (scanAll (c.scan d) files).failures.map Prod.fst =
      files.filter (!isScanned (c.scan d) ·) :=
  ⟨fun _ => findsSame_after, fun _ => Shared.isDone_after, fun _ => findsSame_scanScheduled _,
    fun r => findsSame_scanFiles d r c files, paths_scans_scanAll d c files,
    paths_failures_scanAll (c.scan d) files⟩

/-- A directory with two short files and one that is no text. -/
def oneUnreadable : Disk where
  tree := twoFiles.tree.write [Utf8.ofText "w", Utf8.ofText "c.py"] [0xFF]

/-- The unreadable file, one of the others, and a file that does not exist. -/
def threeListed : List Path :=
  ["w/c.py", "w/a.py", "w/d.py"].map Path.ofText

/-- Both failures raise the flag before one of them is told, and the last of them is told first, with
a line for each; a schedule that starts in the middle finds the same. -/
theorem workers_find_same_threeListed :
    (Shared.after (({} : Config).scan oneUnreadable) threeListed [0, 2, 2, 1, 0]).IsDone ∧
    (Shared.after (({} : Config).scan oneUnreadable) threeListed [0, 2, 2, 1, 0]).hadErrors = true ∧
    ((Shared.after (({} : Config).scan oneUnreadable) threeListed
      [0, 2, 2, 1, 0]).result.failures.map Prod.fst).Perm (["w/c.py", "w/d.py"].map Path.ofText) ∧
    Fragment.writeAll false (failureMessages { path := Path.ofText "w" } (Shared.after
      (({} : Config).scan oneUnreadable) threeListed [0, 2, 2, 1, 0]).result.failures) =
      "Error: Failed to scan w/d.py: Failed to read file: w/d.py: " ++
        "No such file or directory (os error 2)\n" ++
      "Error: Failed to scan w/c.py: Failed to read file: w/c.py: " ++
        "stream did not contain valid UTF-8\n" ∧
    (Shared.after (({} : Config).scan oneUnreadable) threeListed [0, 1, 2, 0, 1, 2]).IsDone ∧
    (scanScheduled (({} : Config).scan oneUnreadable) threeListed [1, 2, 0]).scans =
      (scanAll (({} : Config).scan oneUnreadable) threeListed).scans := by
  have hdone : (Shared.after (({} : Config).scan oneUnreadable) threeListed
      [0, 2, 2, 1, 0]).IsDone := by decide +kernel
  have hfails : threeListed.filter (!isScanned (({} : Config).scan oneUnreadable) ·) =
      ["w/c.py", "w/d.py"].map Path.ofText := by decide +kernel
  have htold : (Shared.after (({} : Config).scan oneUnreadable) threeListed
      [0, 2, 2, 1, 0]).result.failures =
      [(Path.ofText "w/d.py", .file (Path.ofText "w/d.py") .notFound),
        (Path.ofText "w/c.py", .file (Path.ofText "w/c.py") .notText)] := by decide +kernel
  obtain ⟨hturns, henough, hschedule, -, -, hone⟩ :=
    workers_find_same oneUnreadable {} threeListed
  have hsame := hturns _ hdone
  have hsome : (scanAll (({} : Config).scan oneUnreadable) threeListed).failures ≠ [] := by
    intro hnil
    rw [hnil, hfails] at hone
    cases hone
  refine ⟨hdone, ?_, hfails ▸ hsame.failed_perm, ?_, henough _ (by decide),
    (hschedule _ (by decide)).scans_eq⟩
  · rw [hsame.hadErrors_eq]
    simpa using hsome
  · rw [hsame.lines_eq, htold]
    decide +kernel

end CommandLine
end Neatness
