import Neatness.Controller
import Neatness.Proofs.Layers

/-!
# What a controller remembers

A host calls a controller in any order: it hands over documents and brings new settings.  The result
that is kept is that of the last document, scanned under the settings that were in force then.

* `after` is the controller after a list of calls, and `inForce` the settings that the calls leave in
  force.  `settings_after` says that these are the controller's.
* `IsLastHandle` names the last document of a list of calls and the calls in front of it.
  `exists_isLastHandle_or` says that there is one as soon as any document was handed over.
* `current_after_of_isLastHandle` is the result that is kept: new settings that come later leave it as
  it is (`current_after_of_no_handle`).
-/

namespace Neatness

/-- The scan of a text under some settings. -/
def Settings.scan (s : Settings) (text : String) : ScanResult :=
  analyze s.table text s.studentName

namespace Controller

/-- A call of the host. -/
inductive Call where
  | handle (trigger : Trigger) (document : Option String)
  | reconfigure (settings : Settings)
deriving DecidableEq

namespace Call

/-- The call hands a document over, or says that there is none. -/
def isHandle : Call → Bool
  | handle _ _ => true
  | reconfigure _ => false

/-- The settings that a call brings. -/
def settings? : Call → Option Settings
  | handle _ _ => none
  | reconfigure s => some s

end Call

/-- The controller after one call. -/
def call (c : Controller) : Call → Controller
  | .handle trigger document => (c.handle trigger document).1
  | .reconfigure s => c.reconfigure s

/-- The controller after several calls, the first one first. -/
def after (c : Controller) (calls : List Call) : Controller :=
  calls.foldl call c

/-- The settings that calls leave in force: the last ones that were brought. -/
def inForce (initial : Settings) (calls : List Call) : Settings :=
  (calls.filterMap Call.settings?).getLastD initial

@[simp] theorem after_append (c : Controller) (first later : List Call) :
    c.after (first ++ later) = (c.after first).after later :=
  List.foldl_append

/-! ## One call -/

@[simp] theorem settings_handle (c : Controller) (trigger : Trigger) (document : Option String) :
    (c.handle trigger document).1.settings = c.settings := by
  cases document <;> rfl

/-- A document is scanned under the settings in force, whatever was kept before. -/
@[simp] theorem current_handle (c : Controller) (trigger : Trigger) (document : Option String) :
    (c.handle trigger document).1.current = document.map c.settings.scan := by
  cases document <;> rfl

@[simp] theorem current_reconfigure (c : Controller) (s : Settings) :
    (c.reconfigure s).current = c.current := rfl

/-- The status that a document gets is the view of its scan. -/
theorem update_handle (c : Controller) (trigger : Trigger) (document : Option String) :
    (c.handle trigger document).2 =
      match document with
      | none => .hide
      | some text => .draw (c.presenter.present (c.settings.scan text)) := by
  cases document <;> rfl

theorem settings_call (c : Controller) (x : Call) :
    (c.call x).settings = x.settings?.getD c.settings := by
  cases x with
  | handle trigger document => exact c.settings_handle trigger document
  | reconfigure s => rfl

/-! ## Several calls -/

/-- The settings of a controller are those that the calls leave in force. -/
theorem settings_after (c : Controller) (calls : List Call) :
    (c.after calls).settings = inForce c.settings calls := by
  rw [inForce, ← foldl_getD_eq_getLastD, after]
  exact (List.foldl_hom settings fun c x => (c.settings_call x).symm).symm

/-- As long as no document is handed over, the result stays. -/
theorem current_after_of_no_handle (c : Controller) {calls : List Call}
    (h : ∀ x ∈ calls, x.isHandle = false) : (c.after calls).current = c.current := by
  induction calls generalizing c with
  | nil => rfl
  | cons x calls ih =>
      obtain ⟨hx, hcalls⟩ := List.forall_mem_cons.1 h
      cases x with
      | handle trigger document => cases hx
      | reconfigure s => exact (ih (c.reconfigure s) hcalls).trans (c.current_reconfigure s)

/-- The last document of the calls, and the calls in front of it. -/
def IsLastHandle (calls before : List Call) (document : Option String) : Prop :=
  ∃ trigger later, calls = before ++ .handle trigger document :: later ∧
    ∀ x ∈ later, x.isHandle = false

/-- The result that is kept is that of the last document, under the settings that the calls in front
of it have left in force. -/
theorem current_after_of_isLastHandle (c : Controller) {calls before : List Call}
    {document : Option String} (h : IsLastHandle calls before document) :
    (c.after calls).current = document.map (inForce c.settings before).scan := by
  obtain ⟨trigger, later, rfl, hlater⟩ := h
  calc (c.after (before ++ .handle trigger document :: later)).current
      = (((c.after before).handle trigger document).1.after later).current := by
        rw [after_append]
        rfl
    _ = ((c.after before).handle trigger document).1.current :=
        current_after_of_no_handle _ hlater
    _ = document.map (inForce c.settings before).scan := by
        rw [current_handle, settings_after]

/-- Either no document was handed over, or there is a last one. -/
theorem exists_isLastHandle_or (calls : List Call) :
    (∀ x ∈ calls, x.isHandle = false) ∨ ∃ before document, IsLastHandle calls before document := by
  induction calls with
  | nil => simp
  | cons x calls ih =>
      rcases ih with hnone | ⟨before, document, trigger, later, rfl, hlater⟩
      · cases x with
        | handle trigger document => exact .inr ⟨[], document, trigger, calls, rfl, hnone⟩
        | reconfigure s => exact .inl (List.forall_mem_cons.2 ⟨rfl, hnone⟩)
      · exact .inr ⟨x :: before, document, trigger, later, rfl, hlater⟩

/-- A run of a controller from any settings on.  Nothing is kept exactly if no document was handed
over, or if there was none the last time.  Otherwise the last text is kept as it was scanned under
the settings in force at that time, with the report on it; neither earlier documents nor triggers
nor later settings count.  And every call with a document shows how the threshold in force judges
the result that the call leaves behind. -/
theorem current_after_iff (s : Settings) (calls : List Call) :
    ((after { settings := s } calls).current = none ↔
      (∀ x ∈ calls, x.isHandle = false) ∨ ∃ before, IsLastHandle calls before none) ∧
    (∀ before text, IsLastHandle calls before (some text) →
      (after { settings := s } calls).current =
        some (analyze (inForce s before).table text (inForce s before).studentName) ∧
      (after { settings := s } calls).report? =
        some (.ofResult
          (analyze (inForce s before).table text (inForce s before).studentName))) ∧
    ∀ trigger document,
      (((after { settings := s } calls).handle trigger document).2 = .hide ↔ document = none) ∧
      ∀ text, document = some text → ∃ result,
        ((after { settings := s } calls).handle trigger document).1.current = some result ∧
        ((after { settings := s } calls).handle trigger document).2 =
          .draw (Presenter.present ⟨(inForce s calls).warnThreshold⟩ result) := by
  refine ⟨?_, fun before text hlast => ?_, fun trigger document => ⟨?_, ?_⟩⟩
  · constructor
    · intro hcurrent
      refine (exists_isLastHandle_or calls).imp id ?_
      rintro ⟨before, document, hlast⟩
      rw [current_after_of_isLastHandle _ hlast, Option.map_eq_none_iff] at hcurrent
      exact ⟨before, hcurrent ▸ hlast⟩
    · rintro (hnone | ⟨before, hlast⟩)
      · exact current_after_of_no_handle _ hnone
      · exact current_after_of_isLastHandle _ hlast
  · have hcurrent := current_after_of_isLastHandle { settings := s } hlast
    exact ⟨hcurrent, by rw [report?, hcurrent]; rfl⟩
  · rw [update_handle]
    cases document <;> simp
  · rintro text rfl
    refine ⟨_, current_handle _ _ _, ?_⟩
    rw [update_handle, presenter, settings_after]

/-- A text that is scanned before its author's name is known. -/
def lateName : List Call :=
  [.handle .activeDocument (some "x = 1\n"), .handle .document none,
    .reconfigure { Settings.ofPreset .gentle with studentName := "Ann" },
    .handle .configuration (some "x = 1\n"), .reconfigure (Settings.ofPreset .standard)]

/-- The settings of the last document count, and not those that come after it. -/
theorem current_after_lateName :
    IsLastHandle lateName (lateName.take 3) (some "x = 1\n") ∧
    (after {} lateName).current =
      some (analyze Preset.gentle.table "x = 1\n" "Ann") ∧
    (after {} (lateName.take 3)).current = none := by
  have hlast : IsLastHandle lateName (lateName.take 3) (some "x = 1\n") :=
    ⟨.configuration, lateName.drop 4, rfl, by decide⟩
  have hhidden : IsLastHandle (lateName.take 3) (lateName.take 1) none :=
    ⟨.document, (lateName.drop 2).take 1, rfl, by decide⟩
  obtain ⟨-, hcurrent, -⟩ := current_after_iff (Settings.ofPreset .standard) lateName
  obtain ⟨hnone, -⟩ := current_after_iff (Settings.ofPreset .standard) (lateName.take 3)
  exact ⟨hlast, (hcurrent _ _ hlast).1, hnone.2 (.inr ⟨_, hhidden⟩)⟩

end Controller
end Neatness
