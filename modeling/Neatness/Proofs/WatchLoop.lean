import Mathlib.Control.Monad.Basic
import Neatness.CommandLine.WatchLoop
import Neatness.Proofs.Controller
import Neatness.Proofs.Layers

/-!
# The loop of a watch

A watch holds a configuration, the settings for one file and the controller that scans it.  It
reacts to one notice after the other, on the tree as it is then.

* `rescan_eq` and `step_document` say what a step writes: the report on the scan of the file, or
  that the file cannot be read.
* `Watches` are the states that a watch comes to.  In all of them the controller works with the
  settings of the loop (`Watches.inStep`), and the extensions are those that the configuration had
  at the start (`Watches.extensions_eq`).
* `watchStart_report` and `step_report` tell what is reported, and under which settings.
* `Updates` is what becomes of a file whose settings can be worked out.  A step updates a file, or
  takes a configuration over, or changes nothing (`Watches.keeps_or_updates`).
-/

namespace Neatness
namespace CommandLine

/-- What a watch writes about a scan. -/
def watchReport (quiet : Bool) (presenter : Presenter) (scan : FileScan) : List Fragment :=
  let reporter : ConsoleReporter := ⟨presenter, false⟩
  if quiet then reporter.line scan ++ [.plain "\n"] else reporter.report scan

/-- What a watch writes beside its reports about a file that it cannot read. -/
def goneMessage (file : Path) : List Fragment :=
  info (file.shown ++ " is no longer readable; status hidden")

theorem showUpdate_handle (quiet : Bool) (c : Controller) (trigger : Trigger)
    (document : Option String) (file : Path) :
    showUpdate quiet (c.handle trigger document).1 (c.handle trigger document).2 file =
      match document with
      | none => { err := goneMessage file }
      | some text => { out := watchReport quiet c.presenter ⟨file, c.settings.scan text⟩ } := by
  cases document with
  | none => rfl
  | some text => cases quiet <;> rfl

theorem textOf?_eq_some_iff {d : Disk} {file : Path} {text : String} :
    textOf? d file = some text ↔ d.readText file = .ok text := by
  unfold textOf?
  cases d.readText file <;> simp [Except.toOption]

theorem textOf?_eq_none_iff {d : Disk} {file : Path} :
    textOf? d file = none ↔ ∃ e, d.readText file = .error e := by
  unfold textOf?
  cases d.readText file <;> simp [Except.toOption]

namespace WatchState

/-! ## One step -/

/-- The controller works with the settings of the loop. -/
def InStep (s : WatchState) : Prop :=
  s.controller.settings = s.settings

/-- A rescan handles the text of the file and writes what became of it. -/
theorem rescan_eq (s : WatchState) (d : Disk) (r : ScanRequest) (trigger : Trigger)
    (file : Path) :
    s.rescan d r trigger file =
      ({ s with controller := (s.controller.handle trigger (textOf? d file)).1 },
        match textOf? d file with
        | none => { err := goneMessage file }
        | some text =>
          { out := watchReport r.quiet s.controller.presenter
              ⟨file, s.controller.settings.scan text⟩ }) := by
  rw [← showUpdate_handle r.quiet s.controller trigger]
  rfl

/-- New settings come with a controller that works with them, and nothing else changes. -/
theorem refresh_eq (s : WatchState) (file : Path) :
    s.refresh file = s ∨ ∃ settings, s.config.settingsFor (some file) = .ok settings ∧
      s.refresh file = { s with settings, controller := s.controller.reconfigure settings } := by
  unfold refresh
  cases hsettings : s.config.settingsFor (some file) with
  | error e => exact .inl rfl
  | ok settings =>
      simp only
      split
      · exact .inl rfl
      · exact .inr ⟨settings, rfl, rfl⟩

theorem inStep_refresh {s : WatchState} (h : s.InStep) (file : Path) :
    (s.refresh file).InStep := by
  rcases s.refresh_eq file with heq | ⟨settings, -, heq⟩
  · rw [heq]
    exact h
  · rw [heq]
    rfl

/-- Settings that can be worked out are in force afterwards. -/
theorem settings_refresh {s : WatchState} {file : Path} {settings : Settings}
    (h : s.config.settingsFor (some file) = .ok settings) :
    (s.refresh file).settings = settings := by
  unfold refresh
  rw [h]
  simp only
  split
  · rename_i hsame
    exact hsame.symm
  · rfl

/-- If the controller was in step before, nothing else tells whether the settings are new. -/
theorem refresh_of_ok {s : WatchState} (h : s.InStep) {file : Path} {settings : Settings}
    (hsettings : s.config.settingsFor (some file) = .ok settings) :
    s.refresh file = { s with settings, controller := s.controller.reconfigure settings } := by
  unfold refresh
  rw [hsettings]
  simp only
  split
  · rename_i hsame
    subst hsame
    obtain ⟨dir, config, extensions, active, settings, controller⟩ := s
    obtain rfl : controller.settings = settings := h
    rfl
  · rfl

theorem inStep_rescan {s : WatchState} (h : s.InStep) (d : Disk) (r : ScanRequest)
    (trigger : Trigger) (file : Path) : (s.rescan d r trigger file).1.InStep := by
  rw [rescan_eq, InStep, Controller.settings_handle]
  exact h

/-- A document that is left out changes nothing; any other one becomes the active file and is
scanned under its settings. -/
theorem step_document (s : WatchState) (d : Disk) (r : ScanRequest) (file : Path) :
    s.step d r (.document file) =
      if isLeftOut s.config file then (s, {})
      else
        ({ s with active := some file }.refresh file).rescan d r
          (if s.active.any fun active : Path => active.same file then .document
            else .activeDocument) file := rfl

/-- A step changes nothing, or takes a configuration over while there is no active file, or scans a
file under a configuration that was there or was just loaded. -/
theorem step_cases (s : WatchState) (d : Disk) (r : ScanRequest) (notice : Watch.Notice) :
    s.step d r notice = (s, {}) ∨
      (∃ config, s.step d r notice = ({ s with config }, {})) ∨
      ∃ config active trigger file, s.step d r notice =
        ({ s with config, active }.refresh file).rescan d r trigger file := by
  cases notice with
  | document file =>
      rw [step_document]
      split
      · exact .inl rfl
      · exact .inr (.inr ⟨s.config, some file, _, file, rfl⟩)
  | configuration =>
      rw [step]
      cases loadConfig d r s.dir with
      | error e => exact .inl rfl
      | ok config =>
          cases hactive : s.active with
          | none => exact .inr (.inl ⟨config, rfl⟩)
          | some file => exact .inr (.inr ⟨config, some file, .configuration, file, rfl⟩)

theorem inStep_step {s : WatchState} (h : s.InStep) (d : Disk) (r : ScanRequest)
    (notice : Watch.Notice) : (s.step d r notice).1.InStep := by
  rcases s.step_cases d r notice with heq | ⟨config, heq⟩ | ⟨config, active, trigger, file, heq⟩
  · rw [heq]
    exact h
  · rw [heq]
    exact h
  · rw [heq]
    exact inStep_rescan (inStep_refresh (s := { s with config, active }) h file) d r trigger file

/-- The extensions stay as they are, whatever a new configuration says about them. -/
theorem extensions_step (s : WatchState) (d : Disk) (r : ScanRequest) (notice : Watch.Notice) :
    (s.step d r notice).1.extensions = s.extensions := by
  rcases s.step_cases d r notice with heq | ⟨config, heq⟩ | ⟨config, active, trigger, file, heq⟩
  · rw [heq]
  · rw [heq]
  · rw [heq, rescan_eq]
    rcases refresh_eq { s with config, active } file with heq | ⟨settings, -, heq⟩ <;> rw [heq]

/-- A file is updated: it is the active one now, the settings for it under the configuration are in
force, and one thing is written, the report on its text or that it cannot be read. -/
structure Updates (s : WatchState) (d : Disk) (r : ScanRequest) (config : Config) (file : Path)
    (settings : Settings) (next : WatchState × Output) : Prop where
  /-- The directory and the extensions stay. -/
  state : next.1 = { s with
    config := config
    active := some file
    settings := settings
    controller := ⟨settings, (textOf? d file).map settings.scan⟩ }
  /-- A text is scanned, and judged by the threshold of the configuration. -/
  report : ∀ text, d.readText file = .ok text → next.2 =
    { out := watchReport r.quiet
        ⟨config.warnThreshold.getD config.effectivePreset.warnThreshold⟩
        ⟨file, settings.scan text⟩ }
  /-- The message says that there is no text. -/
  gone : next.2 = { err := goneMessage file } ↔ ∃ e, d.readText file = .error e
  /-- So does an empty result. -/
  cleared : next.1.controller.current = none ↔ ∃ e, d.readText file = .error e

/-- Settings for a file judge by the threshold of the configuration. -/
theorem warnThreshold_of_settingsFor {config : Config} {file : Path} {settings : Settings}
    (h : config.settingsFor (some file) = .ok settings) :
    settings.warnThreshold = config.warnThreshold.getD config.effectivePreset.warnThreshold :=
  (Config.settings_eq_ok_iff.1 (Config.settingsFor_eq_ok_iff.1 h)).2.warnThreshold

/-- A file is updated by a refresh and a rescan, if its settings can be worked out. -/
theorem updates_rescan {s : WatchState} (h : s.InStep) (d : Disk) (r : ScanRequest)
    {config : Config} {file : Path} {settings : Settings}
    (hsettings : config.settingsFor (some file) = .ok settings) (trigger : Trigger) :
    Updates s d r config file settings
      (({ s with config, active := some file }.refresh file).rescan d r trigger file) := by
  rw [refresh_of_ok (s := { s with config, active := some file }) h hsettings, rescan_eq]
  cases htext : textOf? d file with
  | none =>
      have hgone := textOf?_eq_none_iff.1 htext
      refine ⟨by rw [htext]; rfl, fun text hread => ?_, ⟨fun _ => hgone, fun _ => rfl⟩,
        ⟨fun _ => hgone, fun _ => rfl⟩⟩
      rw [textOf?_eq_some_iff.2 hread] at htext
      cases htext
  | some text =>
      have hread : ¬∃ e, d.readText file = .error e := by
        rw [← textOf?_eq_none_iff, htext]
        exact Option.some_ne_none text
      refine ⟨by rw [htext]; rfl, fun other hother => ?_,
        ⟨fun hout => ?_, fun he => absurd he hread⟩, ⟨fun hnone => ?_, fun he => absurd he hread⟩⟩
      · rw [textOf?_eq_some_iff.2 hother] at htext
        obtain rfl := Option.some.inj htext
        rw [← warnThreshold_of_settingsFor hsettings]
        rfl
      · -- A report is no message.
        exact absurd (congrArg Output.err hout).symm (List.cons_ne_nil _ _)
      · cases hnone

/-- A document that is not left out is updated, if its settings can be worked out. -/
theorem updates_document {s : WatchState} (h : s.InStep) (d : Disk) (r : ScanRequest) {file : Path}
    {settings : Settings} (hleft : isLeftOut s.config file = false)
    (hsettings : s.config.settingsFor (some file) = .ok settings) :
    s.Updates d r s.config file settings (s.step d r (.document file)) := by
  rw [step_document, if_neg (by simp [hleft])]
  exact updates_rescan h d r hsettings _

/-- What a step reports for a document that has settings is its scan under them. -/
theorem step_report {s : WatchState} (h : s.InStep) {d : Disk} {r : ScanRequest} {file : Path}
    {settings : Settings} (hsettings : s.config.settingsFor (some file) = .ok settings)
    (hout : (s.step d r (.document file)).2.out ≠ []) :
    isLeftOut s.config file = false ∧ ∃ text, d.readText file = .ok text ∧
      (s.step d r (.document file)).1.controller.settings = settings ∧
      (s.step d r (.document file)).1.controller.current = some (settings.scan text) ∧
      (s.step d r (.document file)).2.out =
        watchReport r.quiet ⟨settings.warnThreshold⟩ ⟨file, settings.scan text⟩ := by
  cases hleft : isLeftOut s.config file with
  | true =>
      rw [step_document, if_pos hleft] at hout
      exact absurd rfl hout
  | false =>
      have hupdates := updates_document h d r hleft hsettings
      cases hread : d.readText file with
      | error e =>
          rw [hupdates.gone.2 ⟨e, hread⟩] at hout
          exact absurd rfl hout
      | ok text =>
          refine ⟨rfl, text, rfl, ?_, ?_, ?_⟩
          · rw [hupdates.state]
          · rw [hupdates.state, textOf?_eq_some_iff.2 hread]
            rfl
          · rw [hupdates.report text hread, ← warnThreshold_of_settingsFor hsettings]

end WatchState

/-! ## The start -/

/-- What a watch has when it starts, and what it reports then. -/
theorem watchStart_report {d : Disk} {r : ScanRequest} {s : WatchState} {o : Output}
    (h : watchStart d r = .ok (s, o)) :
    loadConfig d r (workDir d r.path) = .ok s.config ∧
      s.extensions = s.config.scannedExtensions ∧ s.InStep ∧
      (o.out ≠ [] → ∃ text, d.isFile r.path = true ∧
        s.config.settingsFor (some r.path) = .ok s.settings ∧ d.readText r.path = .ok text ∧
        s.controller.current = some (s.settings.scan text) ∧
        o.out = watchReport r.quiet ⟨s.settings.warnThreshold⟩
          ⟨r.path, s.settings.scan text⟩) := by
  unfold watchStart at h
  cases hload : loadConfig d r (workDir d r.path) with
  | error e => simp [hload] at h
  | ok config =>
      simp only [hload] at h
      cases hsettings : config.settingsFor (if d.isFile r.path then some r.path else none) with
      | error e => simp [hsettings] at h
      | ok settings =>
          simp only [hsettings] at h
          by_cases hwatch : Watch.canWatch d r.path = true
          · rw [if_pos hwatch] at h
            by_cases hfile : d.isFile r.path = true
            · simp only [hfile, if_true, WatchState.rescan_eq] at h hsettings
              obtain ⟨rfl, rfl⟩ := Prod.mk.inj (Except.ok.inj h)
              refine ⟨rfl, rfl, Controller.settings_handle _ _ _, fun hout => ?_⟩
              cases htext : textOf? d r.path with
              | none =>
                  rw [htext] at hout
                  exact absurd rfl hout
              | some text =>
                  exact ⟨text, hfile, hsettings, textOf?_eq_some_iff.1 htext, rfl, rfl⟩
            · simp only [hfile] at h
              obtain ⟨rfl, rfl⟩ := Prod.mk.inj (Except.ok.inj h)
              exact ⟨rfl, rfl, rfl, fun hout => absurd rfl hout⟩
          · rw [if_neg hwatch] at h
            cases h

instance {d : Disk} {r : ScanRequest} {P : WatchState → Output → Prop} [∀ s o, Decidable (P s o)] :
    Decidable (∃ s o, watchStart d r = .ok (s, o) ∧ P s o) :=
  match h : watchStart d r with
  | .error e => .isFalse fun ⟨s, o, heq, _⟩ => by cases heq
  | .ok (s, o) => decidable_of_iff (P s o) ⟨fun hp => ⟨s, o, rfl, hp⟩, fun ⟨s', o', heq, hp⟩ => by
      obtain ⟨rfl, rfl⟩ := Prod.mk.inj (Except.ok.inj heq)
      exact hp⟩

/-- The states that a watch for a request comes to, if it starts on the disk `d₀`. -/
inductive Watches (r : ScanRequest) (d₀ : Disk) : WatchState → Prop where
  | start {s : WatchState} {o : Output} (h : watchStart d₀ r = .ok (s, o)) : Watches r d₀ s
  | step {s : WatchState} (h : Watches r d₀ s) (d : Disk) (notice : Watch.Notice) :
      Watches r d₀ (s.step d r notice).1

namespace Watches

variable {r : ScanRequest} {d₀ : Disk} {s : WatchState}

theorem inStep (h : Watches r d₀ s) : s.InStep := by
  induction h with
  | start h => exact (watchStart_report h).2.2.1
  | step h d notice ih => exact WatchState.inStep_step ih d r notice

theorem extensions_eq (h : Watches r d₀ s) :
    ∃ config, loadConfig d₀ r (workDir d₀ r.path) = .ok config ∧
      s.extensions = config.scannedExtensions := by
  induction h with
  | start h =>
      obtain ⟨hload, hextensions, -⟩ := watchStart_report h
      exact ⟨_, hload, hextensions⟩
  | step h d notice ih => rwa [WatchState.extensions_step]

/-- A batch of notices leads from one state of a watch to another one. -/
theorem run (h : Watches r d₀ s) (d : Disk) (notices : List Watch.Notice) :
    Watches r d₀ (s.run d r notices).1 := by
  induction notices generalizing s with
  | nil => exact h
  | cons notice notices ih => exact ih (h.step d notice)

end Watches

end CommandLine
end Neatness
