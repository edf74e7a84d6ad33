import Neatness.Proofs.ExitStatus
import Neatness.Proofs.FolderPatterns
import Neatness.Proofs.Spelling
import Neatness.Proofs.WatchLoop

/-!
# What a watch reports and what a batch scans

A watch is told about files by absolute paths: the working directory, the watched directory as it was
written, and the names from there.  A batch collects the same files behind its path as it was written.
Both lead to one place, so they have one text; but patterns see the bytes of the path.

* `Watch.reported_of_document_mem` says how the file of a notice is spelled.
* `Reports` is a report on a written file.  The batch collects the file under its own spelling, unless
  a pattern leaves that out (`Reports.mem_files_into_iff`), and scans it with the same result, if the
  overrides count for both spellings or for neither (`Reports.scan_eq`).
* `Reports.not_ignored` and `Reports.into_eq` name two cases in which the spelling does not matter:
  patterns that start with any folders, and an absolute directory.
* `scan_of_watchStart` is about the report at the start.
-/

namespace Neatness

namespace Watch

variable {d : Disk} {p f : Path} {extensions : List String}

/-! ## The file of a notice -/

namespace Notice

theorem mem_insert {n m : Notice} {ns : List Notice} (h : n ∈ m.insert ns) : n = m ∨ n ∈ ns := by
  induction ns with
  | nil => exact .inl (List.mem_singleton.1 h)
  | cons first later ih =>
      rw [insert] at h
      split at h
      · exact .inr h
      · split at h
        · exact List.mem_cons.1 h
        · rcases List.mem_cons.1 h with rfl | h
          · exact .inr List.mem_cons_self
          · exact (ih h).imp id (List.mem_cons_of_mem first ·)

/-- A notice of a batch comes from one of its events. -/
theorem mem_ofEvents {configName : Name} {events : List Event} {n : Notice}
    (h : n ∈ ofEvents configName extensions events) :
    ∃ e ∈ events, n ∈ ofEvent configName extensions e := by
  have hfold : ∀ ms ns : List Notice, n ∈ ms.foldl (fun ns m => m.insert ns) ns →
      n ∈ ms ∨ n ∈ ns := by
    intro ms
    induction ms with
    | nil => exact fun ns hmem => .inr hmem
    | cons m ms ih =>
        intro ns hmem
        rcases ih _ hmem with hmem | hmem
        · exact .inl (List.mem_cons_of_mem m hmem)
        · rcases mem_insert hmem with rfl | hmem
          · exact .inl List.mem_cons_self
          · exact .inr hmem
  rcases hfold _ _ h with hmem | hmem
  · exact List.mem_flatMap.1 hmem
  · cases hmem

theorem document_mem_ofEvent {configName : Name} {e : Event}
    (h : .document f ∈ ofEvent configName extensions e) :
    isSourceFile extensions f = true ∧ f ∈ e.paths := by
  unfold ofEvent at h
  split at h
  · obtain ⟨q, hq, hnotice⟩ := List.mem_filterMap.1 h
    unfold ofPath? at hnotice
    split at hnotice
    · cases Option.some.inj hnotice
    · split at hnotice
      · rename_i hsource
        obtain rfl := Notice.document.inj (Option.some.inj hnotice)
        exact ⟨hsource, hq⟩
      · cases hnotice
  · cases h

end Notice

theorem reportedPath?_eq_some {dir : Path} {place : Place}
    (h : reportedPath? d dir place = some f) :
    ∃ names, names ≠ [] ∧ names <:+ place ∧ f = (d.cwdPath.join dir).into names := by
  unfold reportedPath? at h
  cases htop : d.canonical? dir with
  | none => simp [htop] at h
  | some top =>
      simp only [htop, Option.ite_none_right_eq_some, Bool.and_eq_true, bne_iff_ne,
        Option.some.injEq] at h
      obtain ⟨⟨hbelow, hne⟩, rfl⟩ := h
      obtain ⟨names, rfl⟩ := List.isPrefixOf_iff_prefix.1 hbelow
      refine ⟨names, ?_, List.suffix_append top names, by rw [List.drop_left]; rfl⟩
      rintro rfl
      exact hne (List.append_nil top).symm

/-- The file of a notice is a source file, and it is spelled from the root: through the working
directory and the watched directory. -/
theorem reported_of_document_mem {configName : Name} {effects : List (EventKind × List Place)}
    (hproper : ∀ e ∈ effects, ∀ place ∈ e.2, ∀ n ∈ place, Path.IsProper n)
    (h : .document f ∈ Notice.ofEvents configName extensions (events d p effects)) :
    isSourceFile extensions f = true ∧ ∃ names, names ≠ [] ∧ (∀ n ∈ names, Path.IsProper n) ∧
      f = (d.cwdPath.join (watchedDir d p)).into names := by
  obtain ⟨event, hevent, hnotice⟩ := Notice.mem_ofEvents h
  obtain ⟨hsource, hpath⟩ := Notice.document_mem_ofEvent hnotice
  obtain ⟨⟨kind, places⟩, heffect, rfl⟩ := List.mem_map.1 hevent
  obtain ⟨place, hplace, hreported⟩ := List.mem_filterMap.1 hpath
  obtain ⟨names, hne, hsuffix, rfl⟩ := reportedPath?_eq_some hreported
  exact ⟨hsource, names, hne,
    fun n hn => hproper _ heffect place hplace n (hsuffix.subset hn), rfl⟩

/-- The watched directory has the steps of the path, perhaps without the last. -/
theorem steps_watchedDir (d : Disk) (p : Path) :
    (watchedDir d p).steps = p.steps ∨ (watchedDir d p).steps = p.steps.dropLast := by
  unfold watchedDir
  split
  · exact .inl rfl
  · right
    have hdot : (Path.ofText ".").steps = [] := by decide +kernel
    by_cases hsteps : p.steps = []
    · rcases Path.parent?_of_steps_nil hsteps with hparent | ⟨hparent, -⟩
      · rw [hparent, hsteps, hdot]
        rfl
      · rw [hparent, hsteps]
        exact hdot
    · obtain ⟨dir, hparent, hdir, -⟩ := Path.steps_parent? hsteps
      rw [hparent, ← hdir]
      simp only
      split
      · rename_i hempty
        have hbytes : dir.bytes = [] := by simpa [Path.isEmpty] using hempty
        rw [hdot, Path.steps, hbytes]
        rfl
      · rfl

end Watch

namespace CommandLine

variable {r : ScanRequest} {d₀ d : Disk} {s : WatchState} {f : Path} {names : List Name}

/-! ## One file -/

/-- The file is what stands at a path, or it lies below: names lead to it from there. -/
def LiesAt (d : Disk) (p f : Path) (names : List Name) : Prop :=
  ∃ top, d.canonical? p = some top ∧ d.canonical? f = some (top ++ names)

/-- A file that is spelled from the root has a spelling behind the path that it lies at. -/
theorem LiesAt.canonical?_into {p : Path} (h : LiesAt d p f names)
    (habsolute : f.isAbsolute = true) :
    (∀ n ∈ names, n ∈ f.steps ∧ Path.IsProper n) ∧
      d.canonical? (p.into names) = d.canonical? f := by
  obtain ⟨top, htop, hf⟩ := h
  obtain ⟨hnames, hdirs⟩ := Disk.names_of_canonical? habsolute hf
  have hbelow : ∀ n ∈ names, n ∈ f.steps ∧ Path.IsProper n := fun n hn =>
    hnames n (List.mem_append_right top hn)
  refine ⟨hbelow, ?_⟩
  rw [hf]
  refine Disk.canonical?_into htop (fun n hn => (hbelow n hn).2) ?_
    (Disk.canonical?_eq_some_iff.1 hf).2
  intro ms hms hne
  exact hdirs (top ++ ms) ((List.prefix_append_right_inj top).2 hms) fun heq =>
    hne (List.append_cancel_left heq)

/-- A watch that has started on the disk `d₀` is told that a file was written, and reports on it on
the disk `d`. -/
structure Reports (r : ScanRequest) (d₀ d : Disk) (s : WatchState) (f : Path) : Prop where
  watches : Watches r d₀ s
  cwd_eq : d.cwd = d₀.cwd
  /-- Its names lead down. -/
  cwd_proper : ∀ n ∈ d.cwd, Path.IsProper n
  /-- There is a notice for the file, among those for some changed places. -/
  notice : ∃ effects : List (Watch.EventKind × List Place),
    (∀ e ∈ effects, ∀ place ∈ e.2, ∀ n ∈ place, Path.IsProper n) ∧
      .document f ∈ s.noticesOf (Watch.events d₀ r.path effects)
  /-- A report is written. -/
  out : (s.step d r (.document f)).2.out ≠ []

/-- A watch and a batch work with one configuration, and the file has settings under it.  The
extensions that count for the watch are those of its start. -/
structure UpToDate (d₀ : Disk) (b : Batch d r) (s : WatchState) (f : Path) : Prop where
  /-- The configuration in force is the one on the disk. -/
  config_eq : s.config = b.config
  extensions_eq : ∀ c, loadConfig d₀ r (workDir d₀ r.path) = .ok c →
    c.scannedExtensions = b.config.scannedExtensions
  /-- The settings for the file can be worked out. -/
  settings : ∃ settings, b.config.settingsFor (some f) = .ok settings

/-- The overrides of a configuration count for both paths or for neither. -/
def OverridesAlike (c : Config) (p q : Path) : Prop :=
  ∀ o ∈ c.overrides, o.appliesTo p = o.appliesTo q

theorem settingsFor_of_overridesAlike {c : Config} {p q : Path} (h : OverridesAlike c p q) :
    c.settingsFor (some p) = c.settingsFor (some q) := by
  have hmatching : c.matching p = c.matching q := List.filter_congr h
  rw [Config.settingsFor, Config.settingsFor, Config.settings_some, Config.settings_some, hmatching]

theorem mem_scans_iff_mem_files {c : Config} {files : List Path} {g : Path} {result : ScanResult}
    (h : c.scan d g = .ok ⟨g, result⟩) :
    ⟨g, result⟩ ∈ (scanFiles d r c files).scans ↔ g ∈ files := by
  rw [mem_scans_scanFiles_iff]
  constructor
  · rintro ⟨g', hg', hscan⟩
    obtain ⟨settings, text, -, -, heq⟩ := scan_eq_ok_iff.1 hscan
    obtain rfl : g = g' := congrArg FileScan.path heq
    exact hg'
  · exact fun hg => ⟨g, hg, h⟩

/-! ## The report on a file -/

namespace Reports

theorem extensions_eq (h : Reports r d₀ d s f) {b : Batch d r} (hb : UpToDate d₀ b s f) :
    s.extensions = b.base.scannedExtensions := by
  obtain ⟨c, hload, hextensions⟩ := h.watches.extensions_eq
  rw [hextensions]
  exact hb.extensions_eq c hload

theorem spelled (h : Reports r d₀ d s f) :
    Watch.isSourceFile s.extensions f = true ∧ ∃ names, names ≠ [] ∧
      (∀ n ∈ names, Path.IsProper n) ∧
      f = (d.cwdPath.join (Watch.watchedDir d₀ r.path)).into names := by
  obtain ⟨effects, hproper, hmem⟩ := h.notice
  have hcwd : d.cwdPath = d₀.cwdPath := by rw [Disk.cwdPath, Disk.cwdPath, h.cwd_eq]
  rw [hcwd]
  exact Watch.reported_of_document_mem hproper hmem

theorem isAbsolute (h : Reports r d₀ d s f) : f.isAbsolute = true := by
  obtain ⟨-, names, -, hproper, rfl⟩ := h.spelled
  rw [Path.isAbsolute_into _ hproper, d.isAbsolute_cwdPath_join]

/-- All folders of the path are folders of the file, as it was reported. -/
theorem mem_steps_of_path (h : Reports r d₀ d s f) (hlies : LiesAt d r.path f names) {n : Name}
    (hn : n ∈ r.path.steps) (hup : n ≠ Path.up) : n ∈ f.steps := by
  obtain ⟨-, reported, -, hproper, hf⟩ := h.spelled
  have hdir : ∀ m ∈ (Watch.watchedDir d₀ r.path).steps, m ∈ f.steps := by
    intro m hm
    rw [hf, Path.steps_into _ hproper]
    refine List.mem_append_left _ ?_
    cases habsolute : (Watch.watchedDir d₀ r.path).isAbsolute with
    | true => rwa [Path.join_of_isAbsolute _ habsolute]
    | false =>
        rw [Path.steps_join _ habsolute]
        exact List.mem_append_right _ hm
  rcases Watch.steps_watchedDir d₀ r.path with hsteps | hsteps
  · exact hdir n (hsteps ▸ hn)
  · -- The last step is not one of the watched directory, but a name of the place.
    have hne : r.path.steps ≠ [] := List.ne_nil_of_mem hn
    rw [← List.dropLast_append_getLast hne, List.mem_append, List.mem_singleton] at hn
    rcases hn with hn | hn
    · exact hdir n (hsteps ▸ hn)
    · obtain ⟨top, htop, hplace⟩ := hlies
      have hlast : r.path.steps.getLast? = some n := by rw [hn, List.getLast?_eq_some_getLast hne]
      have hmem := List.mem_of_getLast? (Disk.getLast?_of_canonical? htop hlast hup)
      exact ((Disk.names_of_canonical? h.isAbsolute hplace).1 n (List.mem_append_left _ hmem)).1

/-- A file below the path is a source file under the spelling of the batch as well. -/
theorem isSourceFile_into (h : Reports r d₀ d s f) (hlies : LiesAt d r.path f names)
    (hne : names ≠ []) : Watch.isSourceFile s.extensions (r.path.into names) = true := by
  have hsource := h.spelled.1
  obtain ⟨hnames, -⟩ := hlies.canonical?_into h.isAbsolute
  have hsteps := r.path.steps_into fun n hn => (hnames n hn).2
  refine Watch.isSourceFile_of_steps ?_ ?_ hsource
  · intro n hn hup
    rw [hsteps, List.mem_append] at hn
    rcases hn with hn | hn
    · exact h.mem_steps_of_path hlies hn hup
    · exact (hnames n hn).1
  · obtain ⟨n, hn⟩ := Watch.exists_fileName?_of_isSourceFile hsource
    obtain ⟨hlast, hup⟩ := Path.fileName?_eq_some_iff.1 hn
    obtain ⟨top, -, hplace⟩ := hlies
    have hplaceLast := Disk.getLast?_of_canonical? hplace hlast hup
    rw [List.getLast?_append_of_ne_nil _ hne] at hplaceLast
    rw [hsteps, List.getLast?_append_of_ne_nil _ hne, hplaceLast, hlast]

/-- The report shows the scan of the file under its settings. -/
theorem report (h : Reports r d₀ d s f) {b : Batch d r} (hb : UpToDate d₀ b s f) :
    b.ignored.contains f = false ∧ ∃ settings text,
      b.config.settingsFor (some f) = .ok settings ∧ d.readText f = .ok text ∧
      (s.step d r (.document f)).1.controller.settings = settings ∧
      (s.step d r (.document f)).1.controller.current = some (settings.scan text) ∧
      (s.step d r (.document f)).2.out =
        watchReport r.quiet ⟨settings.warnThreshold⟩ ⟨f, settings.scan text⟩ := by
  obtain ⟨settings, hsettings⟩ := hb.settings
  obtain ⟨hkept, text, htext, hcontroller, hcurrent, hout⟩ :=
    WatchState.step_report h.watches.inStep (hb.config_eq ▸ hsettings) h.out
  refine ⟨?_, settings, text, hsettings, htext, hcontroller, hcurrent, hout⟩
  have hignored : s.config.ignoreSet = .ok b.ignored := by
    rw [hb.config_eq, ignoreSet_eq_ok_iff]
    exact b.ofTexts_eq
  rwa [isLeftOut, hignored] at hkept

/-- A batch collects the file under its own spelling, unless a pattern leaves that out. -/
theorem mem_files_into_iff (h : Reports r d₀ d s f) {b : Batch d r} (hb : UpToDate d₀ b s f)
    (hlies : LiesAt d r.path f names) :
    r.path.into names ∈ b.files ↔ b.ignored.contains (r.path.into names) = false := by
  rw [b.mem_files_iff]
  refine ⟨fun hselects => hselects.1, fun hkept => ⟨hkept, ?_⟩⟩
  obtain ⟨-, -, text, -, htext, -⟩ := h.report hb
  obtain ⟨place, content, hplace, hfile, -⟩ := Disk.readText_eq_ok_iff.1 htext
  have hsource := h.isSourceFile_into hlies
  have hdirs := (Disk.names_of_canonical? h.isAbsolute hplace).2
  obtain ⟨top, htop, hf⟩ := hlies
  obtain rfl : place = top ++ names := Option.some.inj (hplace.symm.trans hf)
  by_cases hne : names = []
  · -- The file is the path itself.
    subst hne
    rw [List.append_nil] at hfile
    exact .inl ⟨(isFile_iff htop).2 ⟨content, hfile⟩, rfl⟩
  · -- The path lies above the file, so it is a directory.
    have hnode : d.node r.path = .ok .dir :=
      Disk.node_eq_ok_iff.2 ⟨top, htop, hdirs top (List.prefix_append top names) (by simpa using hne)⟩
    refine .inr ⟨by rw [Disk.isDir, hnode], ?_, top, names, content, htop,
      FileTree.mem_entries_of_node? (FileTree.ne_nil_of_file hfile) hfile, rfl⟩
    rw [← h.extensions_eq hb]
    exact hsource hne

/-- It scans the file with the result that is reported, if the overrides are the same for both
spellings. -/
theorem scan_eq (h : Reports r d₀ d s f) {b : Batch d r} (hlies : LiesAt d r.path f names)
    {settings : Settings} {text : String} (hsettings : b.config.settingsFor (some f) = .ok settings)
    (htext : d.readText f = .ok text) (halike : OverridesAlike b.config (r.path.into names) f) :
    b.config.scan d (r.path.into names) = .ok ⟨r.path.into names, settings.scan text⟩ := by
  rw [scan_eq_ok_iff]
  refine ⟨settings, text, ?_, ?_, rfl⟩
  · rw [settingsFor_of_overridesAlike halike, hsettings]
  · exact Disk.readText_congr (hlies.canonical?_into h.isAbsolute).2 htext

/-- The names behind a watched directory are those behind the working directory and it. -/
theorem eq_into (h : Reports r d₀ d s f) (hlies : LiesAt d r.path f names)
    (hdir : d₀.isDir r.path = true) : f = (d.cwdPath.join r.path).into names := by
  obtain ⟨-, reported, hne, hproper, hf⟩ := h.spelled
  rw [Watch.watchedDir, if_pos hdir] at hf
  obtain ⟨top, htop, hplace⟩ := hlies
  rw [hf] at hplace
  -- Both lists of names lead from the place of the directory to that of the file.
  have hsame := Disk.eq_append_of_canonical?_into h.cwd_proper hproper hne htop hplace
  rw [hf, List.append_cancel_left hsame]

theorem into_eq (h : Reports r d₀ d s f) (hlies : LiesAt d r.path f names)
    (hdir : d₀.isDir r.path = true) (habsolute : r.path.isAbsolute = true) :
    r.path.into names = f := by
  rw [h.eq_into hlies hdir, Path.join_of_isAbsolute _ habsolute]

/-- Patterns that start with any folders leave out no spelling that the batch has for the file. -/
theorem not_ignored (h : Reports r d₀ d s f) {b : Batch d r} (hb : UpToDate d₀ b s f)
    (hlies : LiesAt d r.path f names) (hdir : d₀.isDir r.path = true)
    (hpatterns : b.ignored.InAnyFolder) : b.ignored.contains (r.path.into names) = false := by
  have hkept := (h.report hb).1
  have hf := h.eq_into hlies hdir
  cases habsolute : r.path.isAbsolute with
  | true => rwa [h.into_eq hlies hdir habsolute]
  | false =>
      obtain ⟨hnames, -⟩ := hlies.canonical?_into h.isAbsolute
      obtain ⟨top, htop, -⟩ := hlies
      have hempty : r.path.bytes ≠ [] := by
        simpa [Path.isEmpty] using (Disk.resolve_eq_ok (Disk.canonical?_eq_some_iff.1 htop).1).1
      obtain ⟨folder, hfolder⟩ := Path.exists_folder_into (p := d.cwdPath) (by simp [Disk.cwdPath])
        habsolute hempty fun n hn => (hnames n hn).2
      cases hcontains : b.ignored.contains (r.path.into names) with
      | false => rfl
      | true =>
          have hbehind := Glob.PatternSet.contains_behind_folder hpatterns folder hcontains
          rw [← hfolder, ← hf, hkept] at hbehind
          cases hbehind

end Reports

/-! ## The report at the start -/

theorem Batch.loadConfig_eq (b : Batch d r) :
    loadConfig d r (workDir d r.path) = .ok b.config := by
  rw [loadConfig, b.load_eq]
  rfl

/-- The start scans the path as a batch does, and does not ask whether a pattern leaves it out. -/
theorem scan_of_watchStart {o : Output} (h : watchStart d₀ r = .ok (s, o)) (hout : o.out ≠ []) :
    ∃ result, s.controller.current = some result ∧
      o.out = watchReport r.quiet s.controller.presenter ⟨r.path, result⟩ ∧
      ∀ b : Batch d₀ r, b.config.scan d₀ r.path = .ok ⟨r.path, result⟩ ∧
        (r.path ∈ b.files ↔ b.ignored.contains r.path = false) := by
  obtain ⟨hload, -, hinStep, hreport⟩ := watchStart_report h
  obtain ⟨text, hfile, hsettings, htext, hcurrent, hwritten⟩ := hreport hout
  refine ⟨_, hcurrent, ?_, fun b => ⟨?_, ?_⟩⟩
  · rw [hwritten, Controller.presenter, hinStep]
  · have hconfig : b.config = s.config := Except.ok.inj (b.loadConfig_eq.symm.trans hload)
    rw [hconfig, scan_eq_ok_iff]
    exact ⟨s.settings, text, hsettings, htext, rfl⟩
  · rw [b.mem_files_iff]
    exact ⟨fun hselects => hselects.1, fun hkept => ⟨hkept, .inl ⟨hfile, rfl⟩⟩⟩

/-- What a watch reports is what a batch scans.

The report at the start shows the scan that a batch makes of the path, and the batch makes it unless a
pattern leaves the path out.

The report on a written file shows, when watch and batch have one configuration, the result that the
batch gets for the file under its own spelling, if the overrides take both spellings alike; and again
the batch scans it unless a pattern leaves that spelling out.  For a directory both spellings have the
same names behind it.  Then patterns that start with any folders leave out nothing that is reported,
and an absolute directory has one spelling only, so that the batch has what is reported. -/
theorem watch_report_eq_batch_scan (r : ScanRequest) (d₀ : Disk) :
    (∀ s o, watchStart d₀ r = .ok (s, o) → o.out ≠ [] →
      ∃ result, s.controller.current = some result ∧
        o.out = watchReport r.quiet s.controller.presenter ⟨r.path, result⟩ ∧
        ∀ b : Batch d₀ r, b.config.scan d₀ r.path = .ok ⟨r.path, result⟩ ∧
          (⟨r.path, result⟩ ∈ (scanFiles d₀ r b.config b.files).scans ↔
            b.ignored.contains r.path = false)) ∧
    ∀ (d : Disk) (b : Batch d r) (s : WatchState) (f : Path) (names : List Name),
      Reports r d₀ d s f → UpToDate d₀ b s f → LiesAt d r.path f names →
      ∃ result, (s.step d r (.document f)).1.controller.current = some result ∧
        (s.step d r (.document f)).2.out =
          watchReport r.quiet (s.step d r (.document f)).1.controller.presenter ⟨f, result⟩ ∧
        b.ignored.contains f = false ∧
        (r.path.into names ∈ b.files ↔ b.ignored.contains (r.path.into names) = false) ∧
        (OverridesAlike b.config (r.path.into names) f →
          b.config.scan d (r.path.into names) = .ok ⟨r.path.into names, result⟩ ∧
          (⟨r.path.into names, result⟩ ∈ (scanFiles d r b.config b.files).scans ↔
            b.ignored.contains (r.path.into names) = false)) ∧
        (d₀.isDir r.path = true →
          f = (d.cwdPath.join r.path).into names ∧
          (b.ignored.InAnyFolder → b.ignored.contains (r.path.into names) = false) ∧
          (r.path.isAbsolute = true → r.path.into names = f ∧
            ⟨f, result⟩ ∈ (scanFiles d r b.config b.files).scans)) := by
  refine ⟨fun s o hstart hout => ?_, fun d b s f names h hb hlies => ?_⟩
  · obtain ⟨result, hcurrent, hwritten, hbatch⟩ := scan_of_watchStart hstart hout
    refine ⟨result, hcurrent, hwritten, fun b => ⟨(hbatch b).1, ?_⟩⟩
    rw [mem_scans_iff_mem_files (hbatch b).1, (hbatch b).2]
  · obtain ⟨hkept, settings, text, hsettings, htext, hcontroller, hcurrent, hout⟩ := h.report hb
    have hfiles := h.mem_files_into_iff hb hlies
    have hscan := fun halike => h.scan_eq hlies hsettings htext halike
    refine ⟨_, hcurrent, ?_, hkept, hfiles, fun halike => ⟨hscan halike, ?_⟩,
      fun hdir => ⟨h.eq_into hlies hdir, h.not_ignored hb hlies hdir, fun habsolute => ?_⟩⟩
    · rw [hout, Controller.presenter, hcontroller]
    · rw [mem_scans_iff_mem_files (hscan halike), hfiles]
    · have hsame := h.into_eq hlies hdir habsolute
      rw [hsame] at hscan hfiles
      exact ⟨hsame, (mem_scans_iff_mem_files (hscan fun o _ => rfl)).2 (hfiles.2 hkept)⟩

/-! ## A watched folder -/

/-- A directory `w` in the working directory `h`, with a configuration and a file that prints. -/
def watchedFolder (config : String) (file : Place) : Disk where
  tree := (FileTree.write {} [Utf8.ofText "h", Utf8.ofText "w", Config.fileName.bytes]
    (Utf8.ofText config)).write (Utf8.ofText "h" :: file) (Utf8.ofText "print(1)\n")
  cwd := [Utf8.ofText "h"]

/-- The configuration leaves out a folder that the file is not in. -/
def keptFile : Disk :=
  watchedFolder "\x7b\"ignore\": [\"**/gen/**\"]\x7d" [Utf8.ofText "w", Utf8.ofText "a.py"]

theorem load_keptFile : Config.load keptFile (workDir keptFile (Path.ofText "w")) none =
    .ok { ignore := ["**/gen/**"] } := by
  decide +kernel

theorem ofTexts_gen : Glob.PatternSet.ofTexts ["**/gen/**"] =
    .ok ⟨[[.leadingFolders, .literal 'g', .literal 'e', .literal 'n', .trailingFolders]]⟩ := by
  simp [Glob.PatternSet.ofTexts, Glob.read, Glob.readFrom, Glob.twoStars, Glob.foldersFor]

/-- The batch of the directory. -/
def keptFileBatch : Batch keptFile { path := Path.ofText "w" } where
  base := { ignore := ["**/gen/**"] }
  ignored := ⟨[[.leadingFolders, .literal 'g', .literal 'e', .literal 'n', .trailingFolders]]⟩
  load_eq := load_keptFile
  ofTexts_eq := ofTexts_gen
  has_path := rfl

/-- The start reports on the file as a batch scans it; so does a watch of the directory when the file
is written, though it has another path for it. -/
theorem watch_report_eq_batch_scan_keptFile :
    (∃ s o result, watchStart keptFile { path := Path.ofText "w/a.py" } = .ok (s, o) ∧
      o.out = watchReport false s.controller.presenter ⟨Path.ofText "w/a.py", result⟩ ∧
      ∀ b : Batch keptFile { path := Path.ofText "w/a.py" },
        b.config.scan keptFile (Path.ofText "w/a.py") = .ok ⟨Path.ofText "w/a.py", result⟩) ∧
    ∃ s result, Reports { path := Path.ofText "w" } keptFile keptFile s (Path.ofText "/h/w/a.py") ∧
      UpToDate keptFile keptFileBatch s (Path.ofText "/h/w/a.py") ∧
      LiesAt keptFile (Path.ofText "w") (Path.ofText "/h/w/a.py") [Utf8.ofText "a.py"] ∧
      (s.step keptFile { path := Path.ofText "w" }
        (.document (Path.ofText "/h/w/a.py"))).1.controller.current = some result ∧
      ⟨(Path.ofText "w").into [Utf8.ofText "a.py"], result⟩ ∈
        (scanFiles keptFile { path := Path.ofText "w" } keptFileBatch.config
          keptFileBatch.files).scans := by
  constructor
  · obtain ⟨s, o, hstart, hout⟩ : ∃ s o,
        watchStart keptFile { path := Path.ofText "w/a.py" } = .ok (s, o) ∧ o.out ≠ [] := by
      decide +kernel
    obtain ⟨result, -, hwritten, hbatch⟩ :=
      (watch_report_eq_batch_scan { path := Path.ofText "w/a.py" } keptFile).1 s o hstart hout
    exact ⟨s, o, result, hstart, hwritten, fun b => (hbatch b).1⟩
  · obtain ⟨s, o, hstart, hconfig, hnotice, hout⟩ : ∃ s o,
        watchStart keptFile { path := Path.ofText "w" } = .ok (s, o) ∧
        s.config = keptFileBatch.config ∧
        .document (Path.ofText "/h/w/a.py") ∈ s.noticesOf (Watch.events keptFile (Path.ofText "w")
          [(.modify, [[Utf8.ofText "h", Utf8.ofText "w", Utf8.ofText "a.py"]])]) ∧
        (s.step keptFile { path := Path.ofText "w" }
          (.document (Path.ofText "/h/w/a.py"))).2.out ≠ [] := by
      decide +kernel
    have hreports : Reports { path := Path.ofText "w" } keptFile keptFile s
        (Path.ofText "/h/w/a.py") :=
      ⟨.start hstart, rfl, by decide +kernel, ⟨_, by decide +kernel, hnotice⟩, hout⟩
    have hsettings : (keptFileBatch.config.settingsFor
        (some (Path.ofText "/h/w/a.py"))).toOption.isSome = true := by decide +kernel
    have hupToDate : UpToDate keptFile keptFileBatch s (Path.ofText "/h/w/a.py") := by
      refine ⟨hconfig, fun c hc => ?_, ?_⟩
      · rw [Batch.loadConfig_eq keptFileBatch] at hc
        rw [Except.ok.inj hc]
      · cases hfor : keptFileBatch.config.settingsFor (some (Path.ofText "/h/w/a.py")) with
        | ok settings => exact ⟨settings, rfl⟩
        | error e =>
            rw [hfor] at hsettings
            cases hsettings
    have hlies : LiesAt keptFile (Path.ofText "w") (Path.ofText "/h/w/a.py")
        [Utf8.ofText "a.py"] :=
      ⟨[Utf8.ofText "h", Utf8.ofText "w"], by decide +kernel, by decide +kernel⟩
    obtain ⟨result, hcurrent, -, -, -, hscan, hdir⟩ :=
      (watch_report_eq_batch_scan { path := Path.ofText "w" } keptFile).2 keptFile keptFileBatch s _
        _ hreports hupToDate hlies
    have hkept := (hdir (by decide +kernel)).2.1
      (by simp [Glob.PatternSet.InAnyFolder, keptFileBatch])
    have halike : OverridesAlike keptFileBatch.config
        ((Path.ofText "w").into [Utf8.ofText "a.py"]) (Path.ofText "/h/w/a.py") := by
      intro o ho
      cases ho
    exact ⟨s, result, hreports, hupToDate, hlies, hcurrent, (hscan halike).2.2 hkept⟩

/-- The configuration leaves out the folder that the file is in, as a path from the working
directory. -/
def leftOutFile : Disk :=
  watchedFolder "\x7b\"ignore\": [\"w/gen/**\"]\x7d"
    [Utf8.ofText "w", Utf8.ofText "gen", Utf8.ofText "a.py"]

/-- An override for the file is written as a path from the working directory. -/
def overriddenFile : Disk :=
  watchedFolder
    ("\x7b\"overrides\": [\x7b\"files\": [\"w/*.py\"], " ++
      "\"rules\": \x7b\"debug-print\": \"off\"\x7d\x7d]\x7d")
    [Utf8.ofText "w", Utf8.ofText "a.py"]

/-- A watch reports on a file that a batch leaves out, when it starts with the file and when the file
is written; and it gives a file another score when an override does not match its absolute path. -/
theorem watch_reports_left_out_file :
    (∃ s o, watchStart leftOutFile { path := Path.ofText "w/gen/a.py" } = .ok (s, o) ∧
      o.out ≠ []) ∧
    run leftOutFile { path := Path.ofText "w/gen/a.py" } =
      { err := message .yellow "Warning" "No source files found", exit := 2 } ∧
    (∃ s o, watchStart leftOutFile { path := Path.ofText "w" } = .ok (s, o) ∧
      .document (Path.ofText "/h/w/gen/a.py") ∈ s.noticesOf
        (Watch.events leftOutFile (Path.ofText "w") [(.modify,
          [[Utf8.ofText "h", Utf8.ofText "w", Utf8.ofText "gen", Utf8.ofText "a.py"]])]) ∧
      (s.step leftOutFile { path := Path.ofText "w" }
        (.document (Path.ofText "/h/w/gen/a.py"))).2.out ≠ []) ∧
    run leftOutFile { path := Path.ofText "w" } =
      { err := message .yellow "Warning" "No source files found", exit := 2 } ∧
    (∃ s o, watchStart overriddenFile { path := Path.ofText "w" } = .ok (s, o) ∧
      .document (Path.ofText "/h/w/a.py") ∈ s.noticesOf
        (Watch.events overriddenFile (Path.ofText "w") [(.modify,
          [[Utf8.ofText "h", Utf8.ofText "w", Utf8.ofText "a.py"]])]) ∧
      (s.step overriddenFile { path := Path.ofText "w" }
        (.document (Path.ofText "/h/w/a.py"))).1.controller.current.map ScanResult.score =
          some 90) ∧
    (scanFile overriddenFile (Path.ofText "w/a.py") (Path.ofText "w") none).map (·.result.score) =
      .ok 100 := by
  decide +kernel

end CommandLine
end Neatness
