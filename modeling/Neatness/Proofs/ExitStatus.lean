import Neatness.CommandLine.Execute
import Neatness.Proofs.FileTree
import Neatness.Proofs.Layers
import Neatness.Proofs.Schedule

/-!
# The exit status of a scan

A run ends with `2` when it cannot start, when it finds nothing to scan or when it can scan nothing
of what it finds; with `1` when a file falls short of the threshold; with `2` again when some other
file could not be scanned; and with `0` when nothing of all this happens.

* `Batch` is what a run knows before it scans the first file: a configuration, patterns and
  something at its path.  Without one the run ends at once (`exit_run_of_no_batch`).
* `Batch.mem_files_iff` says which files a path selects, without regard to their order.
* `Scans.status` reads the exit status off the scans and the failures.  It is the one that is
  reported (`exit_reportScans`), since a scan that succeeds has been through the rules of the
  configuration before (`exists_settings_of_scan`).
* `status_scanAll` and `status_scanScheduled` give the status file by file, for one worker or for
  several.
-/

namespace Neatness
namespace CommandLine

variable {d : Disk}

/-! ## Collecting -/

theorem mem_walk_iff {dir f : Path} :
    f ∈ walk d dir ↔ ∃ top names content, d.canonical? dir = some top ∧
      (top ++ names, Node.file content) ∈ d.tree.entries ∧
      f = names.foldl (fun p n => p.join ⟨n⟩) dir := by
  unfold walk
  cases hplace : d.canonical? dir with
  | none => simp
  | some top =>
      rw [List.mem_map]
      constructor
      · rintro ⟨names, hnames, rfl⟩
        obtain ⟨content, hmem⟩ := FileTree.mem_filesBelow_iff.1 hnames
        exact ⟨top, names, content, rfl, hmem, rfl⟩
      · rintro ⟨top', names, content, htop, hmem, rfl⟩
        obtain rfl := Option.some.inj htop
        exact ⟨names, FileTree.mem_filesBelow_iff.2 ⟨content, hmem⟩, rfl⟩

theorem collect_eq_none_iff {ignored : Glob.PatternSet} {extensions : List String} {p : Path} :
    collect d ignored extensions p = none ↔ d.has p = false := by
  rw [Disk.has_eq_isFile_or_isDir]
  unfold collect
  by_cases hfile : d.isFile p = true
  · simp [hfile]
  · by_cases hdir : d.isDir p = true
    · simp [hfile, hdir]
    · simp [hfile, hdir]

/-! ## Before the first scan -/

/-- What a run needs before it can scan: a configuration, patterns that can be read, and something
at the path. -/
structure Batch (d : Disk) (r : ScanRequest) where
  base : Config
  /-- The patterns of files that are left out. -/
  ignored : Glob.PatternSet
  load_eq : Config.load d (workDir d r.path) r.config = .ok base
  ofTexts_eq : Glob.PatternSet.ofTexts base.ignore = .ok ignored
  has_path : d.has r.path = true

namespace Batch

variable {r : ScanRequest} (b : Batch d r)

/-- The configuration with the values of the command line. -/
def config : Config :=
  b.base.withHost r.name r.preset r.threshold

/-- The score that every file has to reach: the one of the command line, or the configured one. -/
def threshold : Option UInt8 :=
  r.threshold.or b.base.threshold

/-- The files that are collected. -/
def files : List Path :=
  (collect d b.ignored b.base.scannedExtensions r.path).getD []

/-- A file that the path selects: the path itself, or a source file below it; and no pattern leaves
it out. -/
def Selects (f : Path) : Prop :=
  b.ignored.contains f = false ∧
    (d.isFile r.path = true ∧ f = r.path ∨
      d.isDir r.path = true ∧ Watch.isSourceFile b.base.scannedExtensions f = true ∧
        ∃ top names content, d.canonical? r.path = some top ∧
          (top ++ names, Node.file content) ∈ d.tree.entries ∧
          f = names.foldl (fun p n => p.join ⟨n⟩) r.path)

/-- The file cannot be scanned. -/
def fails (f : Path) : Bool :=
  match b.config.scan d f with
  | .ok _ => false
  | .error _ => true

/-- The file can be scanned, but it is blocked or misses the threshold. -/
def fallsShort (f : Path) : Bool :=
  match b.threshold, b.config.scan d f with
  | some t, .ok s => s.result.fatal || s.result.score < t
  | _, _ => false

theorem isDir_of_not_isFile (b : Batch d r) (h : ¬d.isFile r.path = true) :
    d.isDir r.path = true := by
  have hhas := b.has_path
  rw [Disk.has_eq_isFile_or_isDir] at hhas
  simpa [h] using hhas

/-- There is something to collect from. -/
theorem collect_eq : collect d b.ignored b.base.scannedExtensions r.path = some b.files := by
  unfold files
  cases hcollect : collect d b.ignored b.base.scannedExtensions r.path with
  | none =>
      have hpath := collect_eq_none_iff.1 hcollect
      rw [b.has_path] at hpath
      cases hpath
  | some files => rfl

/-- The files that are collected are those that the path selects. -/
theorem mem_files_iff (f : Path) : f ∈ b.files ↔ b.Selects f := by
  have hcollect := b.collect_eq
  unfold collect at hcollect
  unfold Selects
  by_cases hfile : d.isFile r.path = true
  · -- The path itself is the only candidate, whatever its extension.
    rw [if_pos hfile] at hcollect
    rw [← Option.some.inj hcollect, Disk.isDir_eq_false_of_isFile hfile]
    by_cases hignored : b.ignored.contains r.path = true
    · rw [if_pos hignored]
      constructor
      · intro hmem
        cases hmem
      · rintro ⟨hkept, ⟨-, rfl⟩ | ⟨hdir, -⟩⟩
        · exact absurd hignored (by simp [hkept])
        · cases hdir
    · rw [if_neg hignored, List.mem_singleton]
      constructor
      · rintro rfl
        exact ⟨by simpa using hignored, .inl ⟨hfile, rfl⟩⟩
      · rintro ⟨-, ⟨-, rfl⟩ | ⟨hdir, -⟩⟩
        · rfl
        · cases hdir
  · have hdir := b.isDir_of_not_isFile hfile
    rw [if_neg hfile, if_pos hdir] at hcollect
    rw [← Option.some.inj hcollect, List.mem_mergeSort, List.mem_filter, mem_walk_iff,
      Bool.and_eq_true, Bool.not_eq_true']
    constructor
    · rintro ⟨hbelow, hsource, hkept⟩
      exact ⟨hkept, .inr ⟨hdir, hsource, hbelow⟩⟩
    · rintro ⟨hkept, ⟨hfile', -⟩ | ⟨-, hsource, hbelow⟩⟩
      · exact absurd hfile' hfile
      · exact ⟨hbelow, hsource, hkept⟩

end Batch

/-! ## From scans to a status -/

/-- The exit status that the scans and the failures of a batch deserve. -/
def Scans.status (threshold : Option UInt8) (s : Scans) : UInt8 :=
  if s.scans.isEmpty then 2
  else if threshold.any fun t => s.scans.any (isBelow t) then 1
  else if s.failures.isEmpty then 0
  else 2

/-- A file is scanned exactly if it has settings and a text. -/
theorem scan_eq_ok_iff {c : Config} {f : Path} {s : FileScan} :
    c.scan d f = .ok s ↔ ∃ settings text, c.settingsFor (some f) = .ok settings ∧
      d.readText f = .ok text ∧ s = ⟨f, analyze settings.table text settings.studentName⟩ := by
  unfold Config.scan
  cases c.settingsFor (some f) with
  | error e => simp
  | ok settings =>
      cases d.readText f with
      | error e => simp
      | ok text => simp [eq_comm]

/-- A file that can be scanned has settings, and so does the configuration without regard to
files. -/
theorem exists_settings_of_scan {c : Config} {f : Path} {s : FileScan} (h : c.scan d f = .ok s) :
    ∃ settings, c.settingsFor none = .ok settings := by
  obtain ⟨settings, -, hfile, -, -⟩ := scan_eq_ok_iff.1 h
  rw [Config.settingsFor_eq_ok_iff, Config.settings_some] at hfile
  -- The rules of the configuration come first for every file, so they have been taken over.
  cases hbase : c.baseSettings with
  | error e => simp [hbase] at hfile
  | ok base =>
      refine ⟨base, ?_⟩
      rw [Config.settingsFor_eq_ok_iff, Config.settings, hbase]

/-- The end of a run has the status of its scans. -/
theorem exit_conclude {r : ScanRequest} {threshold : Option UInt8} {s : Scans} {written : Output}
    (h : s.scans.isEmpty = false) :
    (conclude r threshold s written).exit = s.status threshold := by
  unfold Scans.status
  rw [if_neg (by simp [h])]
  cases threshold with
  | none =>
      show (if s.failures.isEmpty then (0 : UInt8) else 2) = _
      rfl
  | some t =>
      have hany : (s.scans.filter (isBelow t)).isEmpty = !s.scans.any (isBelow t) := by
        rw [Bool.eq_iff_iff]
        simp
      unfold conclude
      simp only [hany, Option.any_some]
      by_cases hbelow : s.scans.any (isBelow t) = true
      · rw [if_neg (by simp [hbelow]), if_pos hbelow]
      · rw [if_pos (by simp [hbelow]), if_neg hbelow]

/-- A report has the status of its scans, if the settings that it needs are there. -/
theorem exit_reportScans {r : ScanRequest} {c : Config} {s : Scans}
    (h : s.scans ≠ [] → ∃ settings, c.settingsFor none = .ok settings) :
    (reportScans r c s).exit = s.status c.threshold := by
  unfold reportScans
  by_cases hscans : s.scans.isEmpty = true
  · simp only [hscans, Scans.status, if_true]
  · obtain ⟨settings, hsettings⟩ := h (by simpa using hscans)
    simp only [hsettings]
    rw [if_neg hscans]
    exact exit_conclude (by simpa using hscans)

/-! ## From files to a status -/

section Files

variable {scan : Path → Except ScanError FileScan}

/-- Scanning one file after the other deserves a status by what becomes of the files. -/
theorem status_scanAll (threshold : Option UInt8) (files : List Path) :
    (scanAll scan files).status threshold =
      if files.all fun f => (scanned? scan f).isNone then 2
      else if files.any fun f => threshold.any fun t => (scanned? scan f).any (isBelow t) then 1
      else if files.any fun f => (scanned? scan f).isNone then 2
      else 0 := by
  have hscans : (scanAll scan files).scans.isEmpty =
      files.all fun f => (scanned? scan f).isNone := by
    rw [Bool.eq_iff_iff, scans_scanAll]
    simp
  have hbelow : (threshold.any fun t => (scanAll scan files).scans.any (isBelow t)) =
      files.any fun f => threshold.any fun t => (scanned? scan f).any (isBelow t) := by
    rw [scans_scanAll]
    cases threshold with
    | none => simp
    | some t =>
        rw [Option.any_some, List.any_filterMap]
        refine List.any_congr rfl fun f => ?_
        cases scanned? scan f <;> rfl
  have hfailures : (scanAll scan files).failures.isEmpty =
      !files.any fun f => (scanned? scan f).isNone := by
    rw [Bool.eq_iff_iff, failures_scanAll]
    simp [failed?_eq_none_iff]
  unfold Scans.status
  rw [hscans, hbelow, hfailures]
  by_cases hfails : (files.any fun f => (scanned? scan f).isNone) = true
  · rw [if_neg (by simp [hfails] : ¬(!files.any fun f => (scanned? scan f).isNone) = true),
      if_pos hfails]
  · rw [if_pos (by simp [hfails] : (!files.any fun f => (scanned? scan f).isNone) = true),
      if_neg hfails]

/-- Several workers deserve the status of one, however they share the files. -/
theorem status_scanScheduled (threshold : Option UInt8) {files : List Path} {schedule : List Nat}
    (hschedule : schedule.Perm (List.range files.length)) :
    (scanScheduled scan files schedule).status threshold =
      (scanAll scan files).status threshold := by
  have hfailures : (scanScheduled scan files schedule).failures.isEmpty =
      (scanAll scan files).failures.isEmpty := by
    exact (scanScheduled_failures hschedule).isEmpty_eq
  unfold Scans.status
  rw [scanScheduled_scans hschedule, hfailures]

end Files

/-! ## Runs -/

variable {r : ScanRequest}

theorem scans_scanFiles (c : Config) (files : List Path) :
    (scanFiles d r c files).scans = files.filterMap (scanned? (c.scan d)) := by
  unfold scanFiles
  by_cases hparallel : (r.parallel || parallelFrom ≤ files.length) = true
  · rw [if_pos hparallel, scanScheduled_scans (List.Perm.refl _), scans_scanAll]
  · rw [if_neg hparallel, scans_scanAll]

theorem status_scanFiles (c : Config) (files : List Path) (threshold : Option UInt8) :
    (scanFiles d r c files).status threshold = (scanAll (c.scan d) files).status threshold := by
  unfold scanFiles
  by_cases hparallel : (r.parallel || parallelFrom ≤ files.length) = true
  · rw [if_pos hparallel, status_scanScheduled threshold (List.Perm.refl _)]
  · rw [if_neg hparallel]

theorem mem_scans_scanFiles_iff {c : Config} {files : List Path} {s : FileScan} :
    s ∈ (scanFiles d r c files).scans ↔ ∃ f ∈ files, c.scan d f = .ok s := by
  rw [scans_scanFiles, List.mem_filterMap]
  refine exists_congr fun f => and_congr Iff.rfl ?_
  unfold scanned?
  cases c.scan d f with
  | ok s' => simp [Except.toOption]
  | error e => simp [Except.toOption]

/-- The settings that the report needs are there when something was scanned. -/
theorem exists_settings_of_scans {c : Config} {files : List Path}
    (h : (scanFiles d r c files).scans ≠ []) :
    ∃ settings, c.settingsFor none = .ok settings := by
  obtain ⟨s, hs⟩ := List.exists_mem_of_ne_nil _ h
  obtain ⟨f, -, hscan⟩ := mem_scans_scanFiles_iff.1 hs
  exact exists_settings_of_scan hscan

theorem ignoreSet_eq_ok_iff {c : Config} {ignored : Glob.PatternSet} :
    c.ignoreSet = .ok ignored ↔ Glob.PatternSet.ofTexts c.ignore = .ok ignored := by
  unfold Config.ignoreSet
  cases Glob.PatternSet.ofTexts c.ignore with
  | error pattern => simp
  | ok s => simp

/-- A run that cannot start ends with an error. -/
theorem exit_run_of_no_batch (h : ¬Nonempty (Batch d r)) : (run d r).exit = 2 := by
  unfold run loadConfig
  cases hload : Config.load d (workDir d r.path) r.config with
  | error e => rfl
  | ok base =>
      simp only
      cases hignore : (base.withHost r.name r.preset r.threshold).ignoreSet with
      | error e => rfl
      | ok ignored =>
          have hpath : d.has r.path = false := by
            refine Bool.eq_false_iff.2 fun hpath => h ⟨?_⟩
            exact ⟨base, ignored, hload, ignoreSet_eq_ok_iff.1 hignore, hpath⟩
          simp only [collect_eq_none_iff.2 hpath]
          rfl

/-- A run that can start has the status of its files. -/
theorem exit_run_of_batch (b : Batch d r) :
    (run d r).exit = (scanAll (b.config.scan d) b.files).status b.threshold := by
  have hload : loadConfig d r (workDir d r.path) = .ok b.config := by
    rw [loadConfig, b.load_eq]
    rfl
  have hignore : b.config.ignoreSet = .ok b.ignored := ignoreSet_eq_ok_iff.2 b.ofTexts_eq
  have hcollect : collect d b.ignored b.config.scannedExtensions r.path = some b.files :=
    b.collect_eq
  unfold run
  simp only [hload, hignore, hcollect]
  cases hfiles : b.files with
  | nil => rfl -- No file at all counts as no file that can be scanned.
  | cons f fs =>
      show (reportScans r b.config (scanFiles d r b.config (f :: fs))).exit = _
      rw [exit_reportScans exists_settings_of_scans, status_scanFiles]
      rfl

/-- Options about the report and the workers leave the status as it is. -/
theorem exit_run_with (d : Disk) (r : ScanRequest) (json quiet verbose noColor parallel : Bool)
    (jobs : Option Nat) :
    (run d { r with json, quiet, verbose, noColor, parallel, jobs }).exit = (run d r).exit := by
  by_cases hbatch : Nonempty (Batch d r)
  · obtain ⟨b⟩ := hbatch
    -- No part of a batch reads these options, so it is one of the other request too.
    let b' : Batch d { r with json, quiet, verbose, noColor, parallel, jobs } :=
      ⟨b.base, b.ignored, b.load_eq, b.ofTexts_eq, b.has_path⟩
    calc (run d { r with json, quiet, verbose, noColor, parallel, jobs }).exit
        = (scanAll (b'.config.scan d) b'.files).status b'.threshold := exit_run_of_batch b'
      _ = (scanAll (b.config.scan d) b.files).status b.threshold := rfl
      _ = (run d r).exit := (exit_run_of_batch b).symm
  · rw [exit_run_of_no_batch hbatch, exit_run_of_no_batch]
    rintro ⟨b⟩
    exact hbatch ⟨⟨b.base, b.ignored, b.load_eq, b.ofTexts_eq, b.has_path⟩⟩

namespace Batch

variable (b : Batch d r)

/-- The status of a run, file by file. -/
theorem exit_run_eq : (run d r).exit =
    if b.files.all b.fails then 2
    else if b.files.any b.fallsShort then 1
    else if b.files.any b.fails then 2
    else 0 := by
  have hfails : b.fails = fun f => (scanned? (b.config.scan d) f).isNone := by
    funext f
    unfold fails scanned?
    cases b.config.scan d f <;> rfl
  have hshort : b.fallsShort = fun f =>
      b.threshold.any fun t => (scanned? (b.config.scan d) f).any (isBelow t) := by
    funext f
    unfold fallsShort scanned?
    cases b.threshold with
    | none => rfl
    | some t => cases b.config.scan d f <;> rfl
  rw [exit_run_of_batch b, status_scanAll, hfails, hshort]

/-- Other workers would end the run with the same status, however they shared the files. -/
theorem exit_reportScans_scanScheduled {schedule : List Nat}
    (hschedule : schedule.Perm (List.range b.files.length)) :
    (reportScans r b.config (scanScheduled (b.config.scan d) b.files schedule)).exit =
      (run d r).exit := by
  have hsettings : (scanScheduled (b.config.scan d) b.files schedule).scans ≠ [] →
      ∃ settings, b.config.settingsFor none = .ok settings := by
    intro hscans
    rw [scanScheduled_scans hschedule, scans_scanAll, ← scans_scanFiles (r := r)] at hscans
    exact exists_settings_of_scans hscans
  rw [exit_reportScans hsettings, status_scanScheduled _ hschedule, exit_run_of_batch b]
  rfl

/-- A run that ends well with a threshold has scanned every selected file, and found it good
enough. -/
theorem scanned_of_exit_eq_zero (hexit : (run d r).exit = 0) {t : UInt8}
    (ht : b.threshold = some t) {f : Path} (hf : b.Selects f) :
    ∃ s ∈ (scanFiles d r b.config b.files).scans, s.path = f ∧ b.config.scan d f = .ok s ∧
      s.result.fatal = false ∧ t ≤ s.result.score := by
  have hmem := (b.mem_files_iff f).2 hf
  rw [b.exit_run_eq] at hexit
  by_cases hshort : b.files.any b.fallsShort = true
  · rw [if_pos hshort] at hexit
    split at hexit <;> cases hexit
  · by_cases hfails : b.files.any b.fails = true
    · rw [if_neg hshort, if_pos hfails] at hexit
      split at hexit <;> cases hexit
    · rw [Bool.not_eq_true, List.any_eq_false] at hshort hfails
      have hfile := hfails f hmem
      have hgood := hshort f hmem
      unfold fails at hfile
      unfold fallsShort at hgood
      cases hscan : b.config.scan d f with
      | error e => simp [hscan] at hfile
      | ok s =>
          simp only [ht, hscan, Bool.or_eq_true, decide_eq_true_eq, not_or, Bool.not_eq_true,
            UInt8.not_lt] at hgood
          obtain ⟨settings, text, -, -, rfl⟩ := scan_eq_ok_iff.1 hscan
          exact ⟨_, mem_scans_scanFiles_iff.2 ⟨f, hmem, hscan⟩, rfl, rfl, hgood⟩

end Batch

/-- The exit status of a scan.  Without a configuration, readable patterns and something at the path
it is `2`; otherwise the selected files decide, and the settings for the report are there as soon as
one of them was scanned.  So `0` with a threshold means that every selected file was scanned and is
good enough.  Neither the options about the report nor the order in which workers share the files
change the status. -/
theorem exit_scan_eq (d : Disk) (r : ScanRequest) :
    (¬Nonempty (Batch d r) → (execute d (.scan r)).2.exit = 2) ∧
    (∀ b : Batch d r,
      (execute d (.scan r)).2.exit =
        (if b.files.all b.fails then 2
        else if b.files.any b.fallsShort then 1
        else if b.files.any b.fails then 2
        else 0) ∧
      (∀ f, f ∈ b.files ↔ b.Selects f) ∧
      ((scanFiles d r b.config b.files).scans ≠ [] →
        ∃ settings, b.config.settingsFor none = .ok settings) ∧
      ∀ schedule : List Nat, schedule.Perm (List.range b.files.length) →
        (reportScans r b.config (scanScheduled (b.config.scan d) b.files schedule)).exit =
          (execute d (.scan r)).2.exit) ∧
    ((execute d (.scan r)).2.exit = 0 → Nonempty (Batch d r) ∧
      ∀ (b : Batch d r) (t : UInt8), b.threshold = some t → ∀ f, b.Selects f →
        ∃ s ∈ (scanFiles d r b.config b.files).scans, s.path = f ∧ b.config.scan d f = .ok s ∧
          s.result.fatal = false ∧ t ≤ s.result.score) ∧
    ∀ (json quiet verbose noColor parallel : Bool) (jobs : Option Nat),
      (execute d (.scan { r with json, quiet, verbose, noColor, parallel, jobs })).2.exit =
        (execute d (.scan r)).2.exit := by
  refine ⟨exit_run_of_no_batch, fun b => ⟨b.exit_run_eq, b.mem_files_iff,
    exists_settings_of_scans, fun _ => b.exit_reportScans_scanScheduled⟩, fun hexit => ⟨?_, ?_⟩,
    exit_run_with d r⟩
  · by_cases hbatch : Nonempty (Batch d r)
    · exact hbatch
    · have htwo : (execute d (.scan r)).2.exit = 2 := exit_run_of_no_batch hbatch
      rw [htwo] at hexit
      cases hexit
  · intro b t ht f hf
    exact b.scanned_of_exit_eq_zero hexit ht hf

/-- A directory with two short files. -/
def twoFiles : Disk where
  tree := (FileTree.write {} [Utf8.ofText "w", Utf8.ofText "b.py"] (Utf8.ofText "y = 1\n")).write
    [Utf8.ofText "w", Utf8.ofText "a.py"] (Utf8.ofText "x = 1\n")

/-- The batch of the directory with two short files. -/
def twoFilesBatch : Batch twoFiles { path := Path.ofText "w", threshold := some 50 } where
  base := {}
  ignored := {}
  load_eq := rfl
  ofTexts_eq := rfl
  has_path := rfl

/-- Both files are good enough, also when the second one is scanned first, and a path to nothing is
an error. -/
theorem exit_scan_twoFiles :
    (execute twoFiles (.scan { path := Path.ofText "v" })).2.exit = 2 ∧
    (reportScans { path := Path.ofText "w", threshold := some 50 } twoFilesBatch.config
      (scanScheduled (twoFilesBatch.config.scan twoFiles) twoFilesBatch.files [1, 0])).exit = 0 ∧
    twoFilesBatch.Selects (Path.ofText "w/b.py") ∧
    (∃ s ∈ (scanFiles twoFiles { path := Path.ofText "w", threshold := some 50 }
        twoFilesBatch.config twoFilesBatch.files).scans,
      s.path = Path.ofText "w/b.py" ∧
        twoFilesBatch.config.scan twoFiles (Path.ofText "w/b.py") = .ok s ∧
        s.result.fatal = false ∧ 50 ≤ s.result.score) ∧
    ∃ settings, twoFilesBatch.config.settingsFor none = .ok settings := by
  have hmissing : ¬Nonempty (Batch twoFiles { path := Path.ofText "v" }) := by
    rintro ⟨b⟩
    exact absurd b.has_path (by decide +kernel)
  have hsorted : [Path.ofText "w/a.py", Path.ofText "w/b.py"].mergeSort Path.le =
      [Path.ofText "w/a.py", Path.ofText "w/b.py"] :=
    List.mergeSort_of_pairwise (by decide +kernel)
  have hfiles : twoFilesBatch.files = [Path.ofText "w/a.py", Path.ofText "w/b.py"] := by
    rw [← hsorted]
    rfl
  obtain ⟨-, hbatch, hzero, -⟩ :=
    exit_scan_eq twoFiles { path := Path.ofText "w", threshold := some 50 }
  obtain ⟨hstatus, hfile, hsettings, hschedule⟩ := hbatch twoFilesBatch
  have hexit := hstatus.trans (show _ = (0 : UInt8) by rw [hfiles]; decide +kernel)
  have hselects := (hfile (Path.ofText "w/b.py")).1 (by rw [hfiles]; decide +kernel)
  obtain ⟨s, hs, hgood⟩ := (hzero hexit).2 twoFilesBatch 50 rfl _ hselects
  refine ⟨(exit_scan_eq twoFiles _).1 hmissing, ?_, hselects, ⟨s, hs, hgood⟩,
    hsettings (List.ne_nil_of_mem hs)⟩
  exact (hschedule [1, 0] (by rw [hfiles]; decide)).trans hexit

end CommandLine
end Neatness
