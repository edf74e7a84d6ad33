import Neatness.Proofs.Controller
import Neatness.Server.Session

/-!
# Sections of the language server

The server handles several notifications of the editor at once.  A handler takes the lock to change
the state, lets go of it, and takes it again to rescan; the handler of a document that was closed
without being the active one does not rescan.  So between two sections of one handler there may be
sections of any others.

* `Traffic` is the server between two sections: its state, and the rescans that handlers still owe.
  `Traffic.run` lets sections follow each other in any order, and `state_serve` says that a
  notification that is served on its own is its sections in a row.
* `Traffic.Coherent` holds after every such run (`coherent_run`).  It says that the controller works
  with the settings of the state, and that the last result is up to date when nothing is owed: a
  section that changes what a scan depends on leaves a rescan to do, and a rescan brings everything
  up to date whatever happened before it (`upToDate_rescan`).
* `diagnostics_rescan` says what a rescan tells about a document.
-/

namespace Neatness
namespace Server

/-! ## Handlers -/

/-- A notification that changes the state; a configuration is loaded from the disk as it is then. -/
inductive Handler where
  | didOpen (uri : Uri) (text : String)
  | didChange (uri : Uri) (texts : List String)
  | didClose (uri : Uri)
  | didConfigure (d : Disk) (editor : Option EditorSettings)

/-- The first section of a handler: the state changes, and a rescan may be due. -/
def Handler.enter (s : State) : Handler → State × Option Trigger
  | .didOpen uri text => (s.didOpen uri text, some .activeDocument)
  | .didChange uri texts => ((s.didChange uri texts).1, some (s.didChange uri texts).2)
  | .didClose uri =>
    ((s.didClose uri).1, if (s.didClose uri).2 then some .activeDocument else none)
  | .didConfigure d editor => ((s.didConfigure d editor).1, some .configuration)

/-- The handler of a request, if it has one. -/
def Request.handler? (d : Disk) : Request → Option Handler
  | .didOpen uri text => (Uri.parse? uri).map (.didOpen · text)
  | .didChange uri texts => (Uri.parse? uri).map (.didChange · texts)
  | .didClose uri => (Uri.parse? uri).map .didClose
  | .didConfigure settings => some (.didConfigure d (EditorSettings.ofValue? settings))
  | _ => none

/-! ## Sections in any order -/

/-- The server between two sections. -/
structure Traffic where
  state : State
  /-- The rescans that handlers still owe, in no particular order. -/
  due : List Trigger := []

/-- A section. -/
inductive Section where
  /-- A handler changes the state. -/
  | enter (h : Handler)
  /-- One of the handlers that owe a rescan does it. -/
  | rescan (i : Nat)

namespace Traffic

/-- The server after a section; only a rescan that is due is done. -/
def step (t : Traffic) : Section → Traffic
  | .enter h => ⟨(h.enter t.state).1, t.due ++ (h.enter t.state).2.toList⟩
  | .rescan i =>
    match t.due[i]? with
    | some trigger => ⟨(t.state.rescan trigger).1, t.due.eraseIdx i⟩
    | none => t

/-- The server after several sections, the first one first. -/
def run (t : Traffic) (sections : List Section) : Traffic :=
  sections.foldl step t

/-- A server that has been greeted and has loaded its configuration, each with the disk as it was
then. -/
def started (atGreeting atLoading : Disk) (root : Option Uri) (editor : Option EditorSettings) :
    Traffic :=
  ⟨((({} : State).greet atGreeting root editor).reload atLoading).1, []⟩

end Traffic

/-- A notification that is served on its own is its sections in a row. -/
theorem state_serve (s : State) (d : Disk) {request : Request} {h : Handler}
    (hrequest : request.handler? d = some h) :
    (s.serve d request).1 = (Traffic.run ⟨s, []⟩ [.enter h, .rescan 0]).state := by
  cases request with
  | hello root options => cases hrequest
  | ready => cases hrequest
  | execute command => cases hrequest
  | shutdown => cases hrequest
  | didOpen uri text =>
      obtain ⟨u, hu, rfl⟩ := Option.map_eq_some_iff.1 hrequest
      simp only [State.serve, State.about, hu]
      rfl
  | didChange uri texts =>
      obtain ⟨u, hu, rfl⟩ := Option.map_eq_some_iff.1 hrequest
      simp only [State.serve, State.about, hu]
      rfl
  | didClose uri =>
      obtain ⟨u, hu, rfl⟩ := Option.map_eq_some_iff.1 hrequest
      simp only [State.serve, State.about, hu]
      cases hactive : (s.didClose u).2 <;> simp [Traffic.run, Traffic.step, Handler.enter,
        State.publish, hactive]
  | didConfigure settings =>
      obtain rfl := Option.some.inj hrequest
      rfl

namespace State

/-! ## A section that changes the state -/

/-- The first section of a handler leaves the controller and its settings alone. -/
theorem controller_enter (s : State) (h : Handler) :
    (h.enter s).1.controller = s.controller ∧ (h.enter s).1.settings = s.settings := by
  cases h with
  | didOpen uri text => exact ⟨rfl, rfl⟩
  | didChange uri texts =>
      simp only [Handler.enter, didChange]
      cases texts.getLast? with
      | none => by_cases hactive : s.active = some uri <;> simp [hactive]
      | some text => by_cases hactive : s.active = some uri <;> simp [hactive, putText]
  | didClose uri =>
      simp only [Handler.enter, didClose]
      split <;> exact ⟨rfl, rfl⟩
  | didConfigure d editor =>
      simp only [Handler.enter, didConfigure, reload]
      split <;> exact ⟨rfl, rfl⟩

theorem lookup_filter_of_ne {uri other : Uri} (h : other ≠ uri) (documents : List (Uri × String)) :
    (documents.filter (·.1 != uri)).lookup other = documents.lookup other := by
  induction documents with
  | nil => rfl
  | cons document documents ih =>
      by_cases hkept : document.1 = uri
      · rw [List.filter_cons_of_neg (by simpa using hkept), ih, List.lookup_cons]
        simp [beq_false_of_ne (hkept ▸ h)]
      · rw [List.filter_cons_of_pos (by simpa using hkept), List.lookup_cons, List.lookup_cons, ih]

/-- A first section that leaves no rescan to do changes nothing that a scan depends on. -/
theorem enter_of_no_rescan {s : State} {h : Handler} (hdue : (h.enter s).2 = none) :
    (h.enter s).1.activeSettings = s.activeSettings ∧
      (h.enter s).1.activeText? = s.activeText? := by
  cases h with
  | didOpen uri text => cases hdue
  | didChange uri texts => cases hdue
  | didConfigure d editor => cases hdue
  | didClose uri =>
      simp only [Handler.enter, didClose] at hdue ⊢
      by_cases hactive : s.active = some uri
      · simp [hactive] at hdue
      · rw [if_neg hactive]
        refine ⟨rfl, ?_⟩
        show s.active.bind (textOf? _) = s.active.bind s.textOf?
        cases hother : s.active with
        | none => rfl
        | some other =>
            -- The closed document is another one than the active one.
            have hne : other ≠ uri := by
              rintro rfl
              exact hactive hother
            exact lookup_filter_of_ne hne s.documents

/-! ## A rescan -/

/-- The controller works with the settings of the state. -/
def InStep (s : State) : Prop :=
  s.controller.settings = s.settings

/-- The last result is the scan of the active document under its settings, if there are any. -/
def UpToDate (s : State) : Prop :=
  ∀ settings, s.activeSettings = .ok settings →
    s.controller.current = s.activeText?.map settings.scan

/-- New settings come with a controller that works with them, and nothing else changes. -/
theorem refresh_eq (s : State) :
    s.refresh = s ∨ ∃ settings,
      s.refresh = { s with settings, controller := s.controller.reconfigure settings } := by
  unfold refresh
  cases s.activeSettings with
  | error e => exact .inl rfl
  | ok settings =>
      simp only
      split
      · exact .inl rfl
      · exact .inr ⟨settings, rfl⟩

theorem activeSettings_refresh (s : State) : s.refresh.activeSettings = s.activeSettings := by
  rcases s.refresh_eq with heq | ⟨settings, heq⟩
  · rw [heq]
  · rw [heq]
    rfl

theorem activeText?_refresh (s : State) : s.refresh.activeText? = s.activeText? := by
  rcases s.refresh_eq with heq | ⟨settings, heq⟩
  · rw [heq]
  · rw [heq]
    rfl

theorem active_refresh (s : State) : s.refresh.active = s.active := by
  rcases s.refresh_eq with heq | ⟨settings, heq⟩ <;> rw [heq]

theorem inStep_refresh {s : State} (h : s.InStep) : s.refresh.InStep := by
  rcases s.refresh_eq with heq | ⟨settings, heq⟩
  · rw [heq]
    exact h
  · rw [heq]
    rfl

/-- Settings that can be worked out are in force afterwards, whether they are others or not. -/
theorem settings_refresh {s : State} {settings : Settings}
    (h : s.activeSettings = .ok settings) : s.refresh.settings = settings := by
  unfold refresh
  rw [h]
  simp only
  split
  · rename_i hsame
    exact hsame.symm
  · rfl

/-- A rescan brings the settings up to date and then handles the active document. -/
theorem state_rescan (s : State) (trigger : Trigger) :
    (s.rescan trigger).1 =
      { s.refresh with
        controller := (s.refresh.controller.handle trigger s.activeText?).1 } := by
  rw [← activeText?_refresh]
  rfl

theorem inStep_rescan {s : State} (h : s.InStep) (trigger : Trigger) :
    (s.rescan trigger).1.InStep := by
  rw [state_rescan, InStep, Controller.settings_handle]
  exact inStep_refresh h

theorem settings_rescan {s : State} (h : s.InStep) (trigger : Trigger) {settings : Settings}
    (hsettings : s.activeSettings = .ok settings) :
    (s.rescan trigger).1.controller.settings = settings := by
  rw [inStep_rescan h trigger, state_rescan]
  exact settings_refresh hsettings

theorem current_rescan (s : State) (trigger : Trigger) :
    (s.rescan trigger).1.controller.current =
      s.activeText?.map s.refresh.controller.settings.scan := by
  rw [state_rescan]
  exact Controller.current_handle _ _ _

/-- After a rescan the last result is up to date, whatever it was before. -/
theorem upToDate_rescan {s : State} (h : s.InStep) (trigger : Trigger) :
    (s.rescan trigger).1.UpToDate := by
  intro settings hsettings
  have hsame : (s.rescan trigger).1.activeSettings = s.activeSettings := by
    rw [state_rescan]
    exact activeSettings_refresh s
  have htext : (s.rescan trigger).1.activeText? = s.activeText? := by
    rw [state_rescan]
    exact activeText?_refresh s
  rw [hsame] at hsettings
  rw [htext, current_rescan, inStep_refresh h, settings_refresh hsettings]

end State

/-! ## What a rescan tells -/

/-- Under the table of a scan, a diagnostic is an error exactly if the rule of its problem blocks. -/
theorem Diagnostic.ofResult_analyze (table : RuleTable) (text name : String) :
    Diagnostic.ofResult text table (analyze table text name) =
      (analyze table text name).problems.map fun p =>
        Diagnostic.ofProblem text.toList (table.entry p.rule).fatal p := by
  refine List.map_congr_left fun p hp => ?_
  -- A problem whose rule blocks makes the whole result block.
  have hfatal : (table.entry p.rule).fatal = true → (analyze table text name).fatal = true :=
    fun h => List.any_eq_true.2 ⟨p, hp, h⟩
  cases hrule : (table.entry p.rule).fatal with
  | false => rw [Bool.and_false]
  | true => rw [hfatal hrule, Bool.and_true]

theorem Diagnostic.exists_error_iff (table : RuleTable) (text name : String) :
    (∃ d ∈ Diagnostic.ofResult text table (analyze table text name), d.severity = .error) ↔
      (analyze table text name).fatal = true := by
  have hseverity : ∀ p : Problem,
      (Diagnostic.ofProblem text.toList (table.entry p.rule).fatal p).severity = .error ↔
        (table.entry p.rule).fatal = true := by
    intro p
    cases hrule : (table.entry p.rule).fatal <;> simp [Diagnostic.ofProblem]
  have hany : (analyze table text name).fatal = true ↔
      ∃ p ∈ (analyze table text name).problems, (table.entry p.rule).fatal = true :=
    List.any_eq_true
  rw [Diagnostic.ofResult_analyze, hany]
  constructor
  · rintro ⟨d, hd, herror⟩
    obtain ⟨p, hp, rfl⟩ := List.mem_map.1 hd
    exact ⟨p, hp, (hseverity p).1 herror⟩
  · rintro ⟨p, hp, hfatal⟩
    exact ⟨_, List.mem_map_of_mem hp, (hseverity p).2 hfatal⟩

/-- A rescan with an active document that has a text tells about it, and no other does. -/
theorem State.findings_rescan (s : State) (trigger : Trigger) :
    (s.rescan trigger).2.diagnostics =
      match s.active, s.activeText? with
      | some uri, some text =>
        some (uri, Diagnostic.ofResult text s.refresh.settings.table
          (s.refresh.controller.settings.scan text))
      | _, _ => none := by
  rw [← s.active_refresh, ← s.activeText?_refresh]
  unfold rescan
  simp only [Controller.current_handle]
  cases s.refresh.active with
  | none => rfl
  | some uri => cases s.refresh.activeText? <;> rfl

/-- The diagnostics of a rescan are about the active document, one for each problem of the result
that the rescan leaves behind and in the same order; some of them is an error exactly if the result
blocks. -/
theorem diagnostics_rescan {s : State} (h : s.InStep) {trigger : Trigger} {uri : Uri}
    {list : List Diagnostic} (hlist : (s.rescan trigger).2.diagnostics = some (uri, list)) :
    s.active = some uri ∧ ∃ text result, s.activeText? = some text ∧
      (s.rescan trigger).1.controller.current = some result ∧
      list = result.problems.map (fun p =>
        Diagnostic.ofProblem text.toList
          ((s.rescan trigger).1.settings.table.entry p.rule).fatal p) ∧
      ((∃ d ∈ list, d.severity = .error) ↔ result.fatal = true) := by
  have hsettings : (s.rescan trigger).1.settings = s.refresh.settings := by rw [s.state_rescan]
  have hcurrent := s.current_rescan trigger
  rw [s.findings_rescan] at hlist
  -- The table that the diagnostics go by is the one that the text was scanned under.
  rw [State.inStep_refresh h] at hlist hcurrent
  rw [hsettings, hcurrent]
  cases hactive : s.active with
  | none => simp [hactive] at hlist
  | some active =>
      cases htext : s.activeText? with
      | none => simp [hactive, htext] at hlist
      | some text =>
          simp only [hactive, htext, Option.some.injEq, Prod.mk.injEq] at hlist
          obtain ⟨rfl, rfl⟩ := hlist
          exact ⟨rfl, text, _, rfl, rfl, Diagnostic.ofResult_analyze _ _ _,
            Diagnostic.exists_error_iff _ _ _⟩

/-! ## Every run -/

namespace Traffic

/-- The controller works with the settings of the state, and its result is up to date when no
handler owes a rescan. -/
structure Coherent (t : Traffic) : Prop where
  /-- The controller works with the settings of the state. -/
  inStep : t.state.InStep
  /-- Without a rescan to do the last result is up to date. -/
  upToDate : t.due = [] → t.state.UpToDate

/-- A server that has just loaded its configuration has no active document and no result. -/
theorem coherent_started (atGreeting atLoading : Disk) (root : Option Uri)
    (editor : Option EditorSettings) : (started atGreeting atLoading root editor).Coherent := by
  have hfresh : ∀ s : State, s.InStep → s.active = none → s.controller.current = none →
      Coherent ⟨s, []⟩ := by
    intro s hinStep hactive hcurrent
    refine ⟨hinStep, fun _ settings _ => ?_⟩
    show s.controller.current = (s.active.bind s.textOf?).map settings.scan
    rw [hcurrent, hactive]
    rfl
  unfold started State.reload
  split <;> exact hfresh _ rfl rfl rfl

theorem coherent_step {t : Traffic} (h : t.Coherent) (x : Section) : (t.step x).Coherent := by
  cases x with
  | enter handler =>
      obtain ⟨hcontroller, hsettings⟩ := t.state.controller_enter handler
      refine ⟨?_, fun hdue => ?_⟩
      · rw [step, State.InStep, hcontroller, hsettings]
        exact h.inStep
      · -- Nothing is owed afterwards, so nothing was owed before and no rescan was left to do.
        obtain ⟨hbefore, hnone⟩ := List.append_eq_nil_iff.1 hdue
        obtain ⟨hactive, htext⟩ := State.enter_of_no_rescan (Option.toList_eq_nil_iff.1 hnone)
        intro settings hok
        rw [step] at hok ⊢
        rw [hactive] at hok
        rw [hcontroller, htext]
        exact h.upToDate hbefore settings hok
  | rescan i =>
      rw [step]
      cases hi : t.due[i]? with
      | none => exact h
      | some trigger =>
          exact ⟨State.inStep_rescan h.inStep trigger,
            fun _ => State.upToDate_rescan h.inStep trigger⟩

theorem coherent_run {t : Traffic} (h : t.Coherent) (sections : List Section) :
    (t.run sections).Coherent := by
  induction sections generalizing t with
  | nil => exact h
  | cons x sections ih => exact ih (coherent_step h x)

/-- The server can be found like this: some sections have followed each other since it has loaded its
configuration. -/
def Reached (t : Traffic) : Prop :=
  ∃ atGreeting atLoading root editor sections,
    t = (started atGreeting atLoading root editor).run sections

theorem Reached.coherent {t : Traffic} (h : t.Reached) : t.Coherent := by
  obtain ⟨atGreeting, atLoading, root, editor, sections, rfl⟩ := h
  exact coherent_run (coherent_started atGreeting atLoading root editor) sections

/-- Whatever sections have followed each other, the controller works with the settings of the state,
so that a rescan never misses settings that it should bring.  When no handler is left with a rescan
to do, and the active document has settings, there is a result exactly if the document has a text,
and it is the scan of that text under the configuration with the editor's values on top.  The
diagnostics of a rescan are those of its problems, one each and in order, with an error among them
exactly if the result blocks.  And a notification that is served on its own is one such run. -/
theorem sections_coherent {t : Traffic} (h : t.Reached) :
    (t.state.controller.settings = t.state.settings ∧
      ∀ trigger settings, t.state.activeSettings = .ok settings →
        (t.state.rescan trigger).1.controller.settings = settings) ∧
    (t.due = [] → ∀ settings,
      (t.state.editor.apply t.state.config).settingsFor (t.state.active.bind Uri.filePath?) =
        .ok settings →
      (t.state.controller.current.isSome = true ↔ ∃ text, t.state.activeText? = some text) ∧
      ∀ text, t.state.activeText? = some text →
        t.state.controller.current = some (analyze settings.table text settings.studentName)) ∧
    (∀ trigger uri list, (t.state.rescan trigger).2.diagnostics = some (uri, list) →
      t.state.active = some uri ∧ ∃ text result, t.state.activeText? = some text ∧
        (t.state.rescan trigger).1.controller.current = some result ∧
        list = result.problems.map (fun p =>
          Diagnostic.ofProblem text.toList
            ((t.state.rescan trigger).1.settings.table.entry p.rule).fatal p) ∧
        ((∃ d ∈ list, d.severity = .error) ↔ result.fatal = true)) ∧
    ∀ d request handler, Request.handler? d request = some handler →
      (t.state.serve d request).1 =
        (run ⟨t.state, []⟩ [.enter handler, .rescan 0]).state := by
  have hcoherent := h.coherent
  refine ⟨⟨hcoherent.inStep, fun trigger _ => State.settings_rescan hcoherent.inStep trigger⟩,
    fun hdue settings hsettings => ?_, fun _ _ _ => diagnostics_rescan hcoherent.inStep,
    fun d _ _ => state_serve t.state d⟩
  have hcurrent := hcoherent.upToDate hdue settings hsettings
  rw [hcurrent, Option.isSome_map, Option.isSome_iff_exists]
  refine ⟨Iff.rfl, fun text htext => ?_⟩
  rw [htext]
  rfl

/-- A document that was never saved. -/
def page (name : String) : Uri :=
  { scheme := "untitled", path := name }

/-- Two documents are opened at once and the second one is scanned first; then the first one is
closed while its scan is still to come. -/
def twoPages : Traffic :=
  (started { tree := {} } { tree := {} } none none).run
    [.enter (.didOpen (page "a") "print(1)\n"), .enter (.didOpen (page "b") "\"C:/x\"\n"),
      .rescan 1, .enter (.didClose (page "a")), .rescan 0]

/-- In the end the second document is the one that counts, and its path is an error. -/
theorem sections_coherent_twoPages :
    twoPages.Reached ∧ twoPages.due = [] ∧
    twoPages.state.activeSettings = .ok (Settings.ofPreset .standard) ∧
    twoPages.state.controller.current =
      some (analyze Preset.standard.table "\"C:/x\"\n" "") ∧
    ∃ list, (twoPages.state.rescan .document).2.diagnostics = some (page "b", list) ∧
      ∃ d ∈ list, d.severity = .error := by
  have hreached : twoPages.Reached := ⟨_, _, _, _, _, rfl⟩
  have hdue : twoPages.due = [] := rfl
  have hsettings : twoPages.state.activeSettings = .ok (Settings.ofPreset .standard) := rfl
  have htext : twoPages.state.activeText? = some "\"C:/x\"\n" := by decide +kernel
  obtain ⟨-, hcurrent, hdiagnostics, -⟩ := sections_coherent hreached
  have hresult := (hcurrent hdue _ hsettings).2 _ htext
  have hfatal : (analyze Preset.standard.table "\"C:/x\"\n" "").fatal = true := by decide +kernel
  have hlist : (twoPages.state.rescan .document).2.diagnostics =
      some (page "b", Diagnostic.ofResult "\"C:/x\"\n" Preset.standard.table
        (analyze Preset.standard.table "\"C:/x\"\n" "")) := rfl
  obtain ⟨-, text, result, -, hscanned, -, herror⟩ := hdiagnostics _ _ _ hlist
  obtain rfl : analyze Preset.standard.table "\"C:/x\"\n" "" = result := Option.some.inj hscanned
  exact ⟨hreached, hdue, hsettings, hresult, _, hlist, herror.2 hfatal⟩

end Traffic

end Server
end Neatness
