import Neatness.CommandLine.Batch

/-!
# Scans by several workers

Workers take the files of a batch in some order, and each puts what it finds into the slot of its
file.  However they are scheduled, the scans come out in the order of the files, and the failures
are the same up to their order.

* `scanned?` and `failed?` are the two outcomes of scanning one file; `scans_scanAll` and
  `failures_scanAll` give the outcome of scanning one file after the other in these terms.
* `Slots.Filled` is the state of the slots after some files are done.  It holds at the start, every
  worker that is done with a file keeps it (`filled_fill`), and so does a whole schedule
  (`filled_foldl`).
* `scanScheduled_scans` and `scanScheduled_failures` compare a schedule that takes every file once
  with scanning one file after the other.
-/

namespace Neatness
namespace CommandLine

variable (scan : Path → Except ScanError FileScan)

/-- The scan of a file, if there is one. -/
def scanned? (f : Path) : Option FileScan :=
  (scan f).toOption

/-- The failure of a file, if there is one. -/
def failed? (f : Path) : Option (Path × ScanError) :=
  match scan f with
  | .ok _ => none
  | .error e => some (f, e)

variable {scan}

theorem failed?_eq_none_iff {f : Path} : failed? scan f = none ↔ scanned? scan f ≠ none := by
  unfold failed? scanned?
  cases scan f with
  | ok s => simp [Except.toOption]
  | error e => simp [Except.toOption]

theorem scans_scanAll (files : List Path) :
    (scanAll scan files).scans = files.filterMap (scanned? scan) := by
  induction files with
  | nil => rfl
  | cons f fs ih =>
      rw [scanAll]
      cases hscan : scan f with
      | error e =>
          have hnone : scanned? scan f = none := by simp [scanned?, hscan, Except.toOption]
          rw [List.filterMap_cons_none hnone]
          exact ih
      | ok s =>
          have hsome : scanned? scan f = some s := by simp [scanned?, hscan, Except.toOption]
          rw [List.filterMap_cons_some hsome]
          exact congrArg (s :: ·) ih

theorem failures_scanAll (files : List Path) :
    (scanAll scan files).failures = files.filterMap (failed? scan) := by
  induction files with
  | nil => rfl
  | cons f fs ih =>
      rw [scanAll]
      cases hscan : scan f with
      | error e =>
          have hsome : failed? scan f = some (f, e) := by simp [failed?, hscan]
          rw [List.filterMap_cons_some hsome]
          exact congrArg ((f, e) :: ·) ih
      | ok s =>
          have hnone : failed? scan f = none := by simp [failed?, hscan]
          rw [List.filterMap_cons_none hnone]
          exact ih

/-! ## Slots -/

/-- The slots and the failures after the files with the numbers `done` are done, in this order. -/
structure Slots.Filled (scan : Path → Except ScanError FileScan) (files : List Path)
    (done : List Nat) (s : Slots) : Prop where
  /-- A slot is filled with the scan of its file once the file is done. -/
  slots_eq : s.slots = files.mapIdx fun i f => if i ∈ done then scanned? scan f else none
  /-- The failures are those of the files that are done, last first. -/
  failures_eq : s.failures.reverse = done.filterMap fun i => files[i]?.bind (failed? scan)

theorem filled_nil (scan : Path → Except ScanError FileScan) (files : List Path) :
    Slots.Filled scan files [] ⟨files.map fun _ => none, []⟩ where
  slots_eq := by
    refine List.ext_getElem (by simp) fun i hi hi' => ?_
    simp
  failures_eq := rfl

/-- One more file is done. -/
theorem filled_fill {files : List Path} {done : List Nat} {s : Slots}
    (h : Slots.Filled scan files done s) (i : Nat) :
    Slots.Filled scan files (done ++ [i]) (s.fill scan files i) := by
  cases hfile : files[i]? with
  | none =>
      have hfill : s.fill scan files i = s := by simp [Slots.fill, hfile]
      have hlen : files.length ≤ i := List.getElem?_eq_none_iff.1 hfile
      rw [hfill]
      refine ⟨?_, ?_⟩
      · rw [h.slots_eq]
        refine List.ext_getElem (by simp) fun j hj hj' => ?_
        rw [List.length_mapIdx] at hj
        have hne : j ≠ i := by omega
        simp [hne]
      · rw [h.failures_eq, List.filterMap_append]
        simp [hfile]
  | some f =>
      obtain ⟨hi, hf⟩ := List.getElem?_eq_some_iff.1 hfile
      cases hscan : scan f with
      | ok r =>
          have hfill : s.fill scan files i = ⟨s.slots.set i (some r), s.failures⟩ := by
            simp [Slots.fill, hfile, hscan]
          rw [hfill]
          refine ⟨?_, ?_⟩
          · show s.slots.set i (some r) = _
            rw [h.slots_eq]
            refine List.ext_getElem (by simp) fun j hj hj' => ?_
            by_cases hne : j = i
            · subst hne
              simp [scanned?, hf, hscan, Except.toOption]
            · simp [hne, Ne.symm hne]
          · show s.failures.reverse = _
            rw [h.failures_eq, List.filterMap_append]
            simp [hfile, failed?, hscan]
      | error e =>
          have hfill : s.fill scan files i = ⟨s.slots, (f, e) :: s.failures⟩ := by
            simp [Slots.fill, hfile, hscan]
          rw [hfill]
          refine ⟨?_, ?_⟩
          · -- The slot stays empty, as before: the file has no scan to put there.
            show s.slots = _
            rw [h.slots_eq]
            refine List.ext_getElem (by simp) fun j hj hj' => ?_
            by_cases hne : j = i
            · subst hne
              simp [scanned?, hf, hscan, Except.toOption]
            · simp [hne]
          · show ((f, e) :: s.failures).reverse = _
            rw [List.reverse_cons, h.failures_eq, List.filterMap_append]
            simp [hfile, failed?, hscan]

/-- A whole schedule is done. -/
theorem filled_foldl {files : List Path} {done : List Nat} {s : Slots}
    (h : Slots.Filled scan files done s) (schedule : List Nat) :
    Slots.Filled scan files (done ++ schedule) (schedule.foldl (Slots.fill scan files) s) := by
  induction schedule generalizing done s with
  | nil => simpa using h
  | cons i is ih =>
      have hrest := ih (filled_fill h i)
      rwa [List.append_assoc, List.singleton_append] at hrest

/-! ## Schedules that take every file once -/

section Schedule

variable {files : List Path} {schedule : List Nat}

/-- The scans of a schedule are those of the files, in the order of the files. -/
theorem scanScheduled_scans (hschedule : schedule.Perm (List.range files.length)) :
    (scanScheduled scan files schedule).scans = (scanAll scan files).scans := by
  have hfilled := filled_foldl (filled_nil scan files) schedule
  rw [List.nil_append] at hfilled
  have hslots : files.mapIdx (fun i f => if i ∈ schedule then scanned? scan f else none) =
      files.map (scanned? scan) := by
    refine List.ext_getElem (by simp) fun i hi hi' => ?_
    rw [List.length_mapIdx] at hi
    have hmem : i ∈ schedule := hschedule.mem_iff.2 (List.mem_range.2 hi)
    simp [hmem]
  rw [scans_scanAll, scanScheduled, hfilled.slots_eq, hslots, List.filterMap_map]
  rfl

/-- The failures of a schedule are those of the files, each once. -/
theorem scanScheduled_failures (hschedule : schedule.Perm (List.range files.length)) :
    (scanScheduled scan files schedule).failures.Perm (scanAll scan files).failures := by
  have hfilled := filled_foldl (filled_nil scan files) schedule
  rw [List.nil_append] at hfilled
  have hrange : (List.range files.length).filterMap (fun i => files[i]?.bind (failed? scan)) =
      files.filterMap (failed? scan) := by
    -- Asked by number, the files are all there, in their order.
    have hfiles : (List.range files.length).map (fun i => files[i]?) = files.map some := by
      refine List.ext_getElem (by simp) fun i hi hi' => ?_
      rw [List.length_map] at hi'
      simp [hi']
    have hbind := congrArg (List.filterMap (Option.bind · (failed? scan))) hfiles
    rwa [List.filterMap_map, List.filterMap_map] at hbind
  rw [failures_scanAll, scanScheduled, hfilled.failures_eq, ← hrange]
  exact hschedule.filterMap _

end Schedule

end CommandLine
end Neatness
