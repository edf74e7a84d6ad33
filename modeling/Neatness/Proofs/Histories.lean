import Neatness.Proofs.ServerSections

/-!
# What a rescan depends on

A server remembers the settings that it used last.  A rescan works out the settings for the active
document and takes them over; only if that fails does it keep those that it has.

* `Findings.under` is what a rescan tells, as a function of settings and of the active document
  alone, and `findings_rescan_eq` says that a rescan goes by the settings that it takes over or
  keeps.
* `Moment` is anything that a server does under its lock, and `after` the state after a history of
  moments.  `settings_after` says which settings a history leaves in force: the last ones that a
  rescan could work out.
* `SameView` compares two states by what the next rescan should depend on.
-/

namespace Neatness
namespace Server

/-- What a rescan tells about the active document and its text under some settings. -/
def Findings.under (settings : Settings) (active : Option Uri) (text : Option String) :
    Findings where
  status := match text with
    | none => .hide
    | some text => .draw (Presenter.present ⟨settings.warnThreshold⟩ (settings.scan text))
  diagnostics := match active, text with
    | some uri, some text =>
      some (uri, Diagnostic.ofResult text settings.table (settings.scan text))
    | _, _ => none

namespace State

/-! ## One rescan -/

/-- What a rescan tells depends on the settings that it goes by and on the active document. -/
theorem findings_rescan_eq {s : State} (h : s.InStep) (trigger : Trigger) :
    (s.rescan trigger).2 = .under s.refresh.settings s.active s.activeText? := by
  have hcontroller := inStep_refresh h
  have hstatus : (s.rescan trigger).2.status =
      (Findings.under s.refresh.settings s.active s.activeText?).status := by
    show (s.refresh.controller.handle trigger s.refresh.activeText?).2 = _
    rw [Controller.update_handle, activeText?_refresh, Controller.presenter, hcontroller]
    rfl
  have hdiagnostics := s.findings_rescan trigger
  rw [hcontroller] at hdiagnostics
  calc (s.rescan trigger).2
      = ⟨(s.rescan trigger).2.status, (s.rescan trigger).2.diagnostics⟩ := rfl
    _ = .under s.refresh.settings s.active s.activeText? := by
        rw [hstatus, hdiagnostics]
        rfl

/-- A rescan takes over the settings that it can work out, and keeps the old ones otherwise. -/
theorem settings_refresh_eq (s : State) :
    s.refresh.settings = s.activeSettings.toOption.getD s.settings := by
  cases hsettings : s.activeSettings with
  | ok settings => exact settings_refresh hsettings
  | error e =>
      unfold refresh
      rw [hsettings]
      rfl

theorem activeSettings_eq_ok_iff {s : State} {settings : Settings} :
    s.activeSettings = .ok settings ↔ s.activeSettings.toOption = some settings := by
  cases s.activeSettings <;> simp [Except.toOption]

/-! ## Histories -/

/-- What a server does under its lock. -/
inductive Moment where
  | greet (d : Disk) (root : Option Uri) (editor : Option EditorSettings)
  | load (d : Disk)
  | enter (h : Handler)
  | rescan (trigger : Trigger)

/-- The state after a moment. -/
def live (s : State) : Moment → State
  | .greet d root editor => s.greet d root editor
  | .load d => (s.reload d).1
  | .enter h => (h.enter s).1
  | .rescan trigger => (s.rescan trigger).1

/-- The state after several moments, the first one first. -/
def since (s : State) (history : List Moment) : State :=
  history.foldl live s

/-- The state of a new server after a history. -/
def after (history : List Moment) : State :=
  since {} history

/-- The settings that a moment works out, which is what a rescan does. -/
def workedOut? (s : State) : Moment → Option Settings
  | .rescan _ => s.activeSettings.toOption
  | _ => none

/-- The settings that the rescans of a history could work out, in order. -/
def workedOut (s : State) : List Moment → List Settings
  | [] => []
  | m :: later => (s.workedOut? m).toList ++ (s.live m).workedOut later

/-- The settings that a history leaves in force: the last ones that a rescan could work out, or
those of a new server. -/
def inForce (history : List Moment) : Settings :=
  (workedOut {} history).getLastD (Settings.ofPreset .standard)

theorem inStep_live {s : State} (h : s.InStep) (m : Moment) : (s.live m).InStep := by
  cases m with
  | greet d root editor => exact h
  | load d =>
      rw [live, reload]
      split <;> exact h
  | enter handler =>
      obtain ⟨hcontroller, hsettings⟩ := s.controller_enter handler
      rw [live, InStep, hcontroller, hsettings]
      exact h
  | rescan trigger => exact inStep_rescan h trigger

theorem inStep_since {s : State} (h : s.InStep) (history : List Moment) :
    (s.since history).InStep := by
  induction history generalizing s with
  | nil => exact h
  | cons m later ih => exact ih (inStep_live h m)

/-- Only a rescan brings other settings. -/
theorem settings_live (s : State) (m : Moment) :
    (s.live m).settings = (s.workedOut? m).getD s.settings := by
  cases m with
  | greet d root editor => rfl
  | load d =>
      rw [live, reload]
      split <;> rfl
  | enter handler => exact (s.controller_enter handler).2
  | rescan trigger =>
      rw [live, state_rescan]
      exact s.settings_refresh_eq

theorem settings_since (s : State) (history : List Moment) :
    (s.since history).settings = (s.workedOut history).getLastD s.settings := by
  induction history generalizing s with
  | nil => rfl
  | cons m later ih =>
      have hlater := ih (s.live m)
      rw [settings_live] at hlater
      show ((s.live m).since later).settings = _
      rw [hlater, workedOut]
      cases s.workedOut? m with
      | none => rfl
      | some settings => rw [Option.getD_some, Option.toList_some, List.singleton_append,
          List.getLastD_cons]

/-- The settings of a server are those that its history leaves in force. -/
theorem settings_after (history : List Moment) : (after history).settings = inForce history :=
  settings_since {} history

theorem inStep_after (history : List Moment) : (after history).InStep :=
  inStep_since (show InStep {} from rfl) history

/-! ## Two histories -/

/-- The states hold the same documents, the same one is active, and the configuration and the
editor's settings are the same. -/
structure SameView (s u : State) : Prop where
  textOf?_eq : ∀ uri, s.textOf? uri = u.textOf? uri
  active_eq : s.active = u.active
  config_eq : s.config = u.config
  editor_eq : s.editor = u.editor

namespace SameView

variable {s u : State}

theorem activeSettings_eq (h : SameView s u) : s.activeSettings = u.activeSettings := by
  rw [activeSettings, activeSettings, h.editor_eq, h.config_eq, h.active_eq]

theorem activeText?_eq (h : SameView s u) : s.activeText? = u.activeText? := by
  rw [activeText?, activeText?, h.active_eq]
  exact Option.bind_congr fun uri _ => h.textOf?_eq uri

end SameView

/-- Two histories that end with the same documents, active document, configuration and editor's
settings.  If the settings for the active document can be worked out, the next rescan tells the same
after both: the scan of the active text under these settings.  If they cannot, it tells what the
scan under the settings in force gives, and this is the same if both histories leave the same
settings in force. -/
theorem findings_eq_of_sameView (first second : List Moment)
    (hview : SameView (after first) (after second)) (trigger other : Trigger) :
    (after first).activeSettings = (after second).activeSettings ∧
    (∀ settings, (after first).activeSettings = .ok settings →
      ((after first).rescan trigger).2 =
        .under settings (after first).active (after first).activeText? ∧
      ((after first).rescan trigger).2 = ((after second).rescan other).2) ∧
    ∀ e, (after first).activeSettings = .error e →
      ((after first).rescan trigger).2 =
        .under (inForce first) (after first).active (after first).activeText? ∧
      (inForce first = inForce second →
        ((after first).rescan trigger).2 = ((after second).rescan other).2) := by
  have hsame := hview.activeSettings_eq
  have hfirst := findings_rescan_eq (inStep_after first) trigger
  have hsecond := findings_rescan_eq (inStep_after second) other
  rw [settings_refresh_eq] at hfirst hsecond
  rw [← hsame, ← hview.active_eq, ← hview.activeText?_eq] at hsecond
  refine ⟨hsame, fun settings hok => ?_, fun e herror => ?_⟩
  · rw [hok] at hfirst hsecond
    exact ⟨hfirst, hfirst.trans hsecond.symm⟩
  · rw [herror, settings_after] at hfirst hsecond
    refine ⟨hfirst, fun hforce => ?_⟩
    rw [← hforce] at hsecond
    exact hfirst.trans hsecond.symm

/-- A file at the root of the file system. -/
def rootFile (path : String) : Uri :=
  { scheme := "file", authority := some {}, path }

/-- A name for one file, and an override for another file that names no rule. -/
def wrongOverride : Config where
  overrides := [{ files := ["*a.py"], studentName := some "Ann" },
    { files := ["*b.py"], rules := .ofList [("todo", .toggle false)] }]

/-- A project with that configuration. -/
def wrongProject : Disk where
  tree := FileTree.write {} [Config.fileName.bytes] (Utf8.ofText
    ("\x7b\"overrides\": [\x7b\"files\": [\"*a.py\"], \"studentName\": \"Ann\"\x7d, " ++
      "\x7b\"files\": [\"*b.py\"], \"rules\": \x7b\"todo\": \"off\"\x7d\x7d]\x7d"))

/-- A session in that project is opened. -/
def opensProject : List Moment :=
  [.greet wrongProject none none, .load wrongProject]

theorem after_opensProject :
    after opensProject = { root := some (Path.ofText "/"), config := wrongOverride } := by
  decide +kernel

/-- Some file is looked at, after another one that is closed again or at once. -/
def looksAt (file : String) (afterAnother : Bool) : List Moment :=
  if afterAnother then
    [.enter (.didOpen (rootFile "/a.py") "x = 1\n"), .rescan .activeDocument,
      .enter (.didOpen (rootFile file) "x = 1\n"), .enter (.didClose (rootFile "/a.py"))]
  else [.enter (.didOpen (rootFile file) "x = 1\n")]

theorem after_append_opensProject (later : List Moment) :
    after (opensProject ++ later) =
      since { root := some (Path.ofText "/"), config := wrongOverride } later := by
  rw [← after_opensProject]
  exact List.foldl_append

theorem sameView_of_eq {s u : State} (hdocuments : s.documents = u.documents)
    (hactive : s.active = u.active) (hconfig : s.config = u.config)
    (heditor : s.editor = u.editor) : SameView s u :=
  ⟨fun uri => congrArg (List.lookup uri) hdocuments, hactive, hconfig, heditor⟩

/-- For a file whose settings can be worked out it does not matter what was looked at before. -/
theorem findings_eq_of_sameView_thirdFile :
    SameView (after (opensProject ++ looksAt "/c.py" true))
      (after (opensProject ++ looksAt "/c.py" false)) ∧
    (after (opensProject ++ looksAt "/c.py" true)).activeSettings =
      .ok (Settings.ofPreset .standard) ∧
    (after (opensProject ++ looksAt "/c.py" true)).settings ≠
      (after (opensProject ++ looksAt "/c.py" false)).settings ∧
    ((after (opensProject ++ looksAt "/c.py" true)).rescan .document).2 =
      ((after (opensProject ++ looksAt "/c.py" false)).rescan .configuration).2 := by
  have hview : SameView (after (opensProject ++ looksAt "/c.py" true))
      (after (opensProject ++ looksAt "/c.py" false)) := by
    rw [after_append_opensProject, after_append_opensProject]
    exact sameView_of_eq (by decide +kernel) (by decide +kernel) (by decide +kernel)
      (by decide +kernel)
  have hsettings : (after (opensProject ++ looksAt "/c.py" true)).activeSettings =
      .ok (Settings.ofPreset .standard) := by
    rw [after_append_opensProject, activeSettings_eq_ok_iff]
    decide +kernel
  have hother : (after (opensProject ++ looksAt "/c.py" true)).settings ≠
      (after (opensProject ++ looksAt "/c.py" false)).settings := by
    rw [after_append_opensProject, after_append_opensProject]
    decide +kernel
  obtain ⟨-, hok, -⟩ := findings_eq_of_sameView _ _ hview .document .configuration
  exact ⟨hview, hsettings, hother, (hok _ hsettings).2⟩

/-- A file with settings that cannot be worked out is scanned for the name of the author of the file
that was looked at before it. -/
theorem findings_depend_on_earlier_file :
    SameView (after (opensProject ++ looksAt "/b.py" true))
      (after (opensProject ++ looksAt "/b.py" false)) ∧
    ((after (opensProject ++ looksAt "/b.py" true)).rescan .document).2 ≠
      ((after (opensProject ++ looksAt "/b.py" false)).rescan .document).2 := by
  rw [after_append_opensProject, after_append_opensProject]
  exact ⟨sameView_of_eq (by decide +kernel) (by decide +kernel) (by decide +kernel)
    (by decide +kernel), by decide +kernel⟩

end State
end Server
end Neatness
