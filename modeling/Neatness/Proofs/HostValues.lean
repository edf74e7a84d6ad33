import Neatness.Proofs.Layers
import Neatness.Server.State

/-!
# Values of the host

The command line and the editor can give a name, a preset and, for the editor, a threshold of their
own.  They go over the configuration file: its own name, preset and threshold do not count any more
(`apply_congr`).  The overrides of the file come later, though.  They cannot touch the threshold, and
of the preset only what they mention, but a name that one of them has replaces the name that was
given.

* `settings_withHost` says that the command line's values work like the editor's.
* `settings_apply_eq_error_iff` says that no value of the host makes settings fail or saves them.
* `resolves_apply` gives the settings for a file from the host's values.
-/

namespace Neatness
namespace Server
namespace EditorSettings

variable (e : EditorSettings) (c : Config)

/-! ## What the host's values reach -/

/-- What the host gives does not depend on what the file says in the same place. -/
theorem apply_congr (name : Option String) (preset : Option Preset)
    (warnThreshold : Option UInt8) :
    e.apply { c with
        studentName := e.studentName.elim c.studentName fun _ => name
        preset := e.preset.elim c.preset fun _ => preset
        warnThreshold := e.warnThreshold.elim c.warnThreshold fun _ => warnThreshold } =
      e.apply c := by
  obtain ⟨givenName, givenPreset, givenThreshold⟩ := e
  cases givenName <;> cases givenPreset <;> cases givenThreshold <;> rfl

/-- The rules and the overrides are those of the file. -/
theorem layers_apply (p : Path) : (e.apply c).layers p = c.layers p := rfl

theorem mentions_apply (p : Path) (r : Rule) : (e.apply c).mentions p r = c.mentions p r := rfl

/-- The threshold of the command line is for the run as a whole, and no matter of settings. -/
theorem settings_withHost (threshold : Option UInt8) (file : Option Path) :
    (c.withHost e.studentName e.preset threshold).settingsFor file =
      ({ e with warnThreshold := none }.apply c).settingsFor file := rfl

/-- Settings fail for what the file says, whatever the host gives. -/
theorem settings_apply_eq_error_iff (p : Path) (err : ConfigError) :
    (e.apply c).settingsFor (some p) = .error err ↔ c.settingsFor (some p) = .error err := by
  simp only [Config.settingsFor_eq_error_iff, Config.settings_eq_error_iff, layers_apply]

/-! ## The settings for a file -/

variable {e c}

theorem effectivePreset_apply {preset : Preset} (h : e.preset = some preset) :
    (e.apply c).effectivePreset = preset := by
  simp [apply, Config.withHost, Config.effectivePreset, h]

/-- The name for a file is the one that the host gives, unless an override that matches has one. -/
theorem nameFor_apply {name : String} (h : e.studentName = some name) (p : Path) :
    (e.apply c).nameFor p = ((c.matching p).filterMap (·.studentName)).getLastD name := by
  have hname : (e.apply c).studentName = some name := by
    simp [apply, Config.withHost, h]
  rw [Config.nameFor, hname]
  rfl

theorem resolves_apply {p : Path} {s : Settings}
    (h : (e.apply c).settingsFor (some p) = .ok s) : (e.apply c).Resolves p s := by
  rw [Config.settingsFor_eq_ok_iff, Config.settings_eq_ok_iff] at h
  exact h.2

theorem filterMap_matching_eq_nil {p : Path}
    (h : ∀ o ∈ c.overrides, o.appliesTo p = true → o.studentName = none) :
    (c.matching p).filterMap (·.studentName) = [] := by
  rw [List.filterMap_eq_nil_iff]
  intro o ho
  obtain ⟨hmem, hmatch⟩ := List.mem_filter.1 ho
  exact h o hmem hmatch

/-- What the host's values do to the settings for a file, given on the command line or by the editor.
What the file says in their place does not count.  The table starts from the given preset, so that
every field of a rule is the one that the file mentions last or the preset's, and the given threshold
is the one in force.  The given name is in force unless an override that matches the file has a name:
then the last of these is.  Settings fail exactly where they fail without the host. -/
theorem settingsFor_host_values (e : EditorSettings) (c : Config) (p : Path) :
    (∀ threshold, (c.withHost e.studentName e.preset threshold).settingsFor (some p) =
      ({ e with warnThreshold := none }.apply c).settingsFor (some p)) ∧
    (∀ err, (e.apply c).settingsFor (some p) = .error err ↔
      c.settingsFor (some p) = .error err) ∧
    (∀ name preset warnThreshold,
      e.apply { c with
          studentName := e.studentName.elim c.studentName fun _ => name
          preset := e.preset.elim c.preset fun _ => preset
          warnThreshold := e.warnThreshold.elim c.warnThreshold fun _ => warnThreshold } =
        e.apply c) ∧
    ∀ s, (e.apply c).settingsFor (some p) = .ok s →
      (∀ preset, e.preset = some preset → ∀ r,
        (s.table.entry r).penalty = ((c.mentions p r).filterMap RuleSetting.penalty?).getLastD
          (preset.table.entry r).penalty ∧
        (s.table.entry r).fatal = ((c.mentions p r).filterMap RuleSetting.fatal?).getLastD
          (preset.table.entry r).fatal ∧
        (s.table.entry r).enabled = ((c.mentions p r).filterMap RuleSetting.enabled?).getLastD
          (preset.table.entry r).enabled) ∧
      (∀ threshold, e.warnThreshold = some threshold → s.warnThreshold = threshold) ∧
      ∀ name, e.studentName = some name →
        s.studentName = ((c.matching p).filterMap (·.studentName)).getLastD name ∧
        ((∀ o ∈ c.overrides, o.appliesTo p = true → o.studentName = none) →
          s.studentName = name) := by
  refine ⟨fun threshold => settings_withHost e c threshold (some p),
    settings_apply_eq_error_iff e c p, apply_congr e c, fun s hs => ?_⟩
  have hresolves := resolves_apply hs
  refine ⟨fun preset hpreset r => ?_, fun threshold hthreshold => ?_, fun name hname => ?_⟩
  · have hentry := effectivePreset_apply (c := c) hpreset
    rw [hresolves.penalty, hresolves.fatal, hresolves.enabled, mentions_apply, hentry]
    exact ⟨rfl, rfl, rfl⟩
  · rw [hresolves.warnThreshold, apply, hthreshold]
    rfl
  · have hfile := hresolves.studentName.trans (nameFor_apply hname p)
    refine ⟨hfile, fun hnone => ?_⟩
    rw [hfile, filterMap_matching_eq_nil hnone]
    rfl

/-- A configuration with values of its own, in which an override has a name for some files. -/
def namedOverride : Config where
  studentName := some "Zoe"
  preset := some .standard
  warnThreshold := some 10
  overrides := [{ files := ["*.py"], studentName := some "Sam" }]

/-- Where no override matches, the host's values are in force. -/
theorem settingsFor_host_values_unmatched :
    ∃ s, (apply ⟨some "Ann", some .gentle, some 70⟩ namedOverride).settingsFor
        (some (Path.ofText "a.c")) = .ok s ∧
      s.studentName = "Ann" ∧ s.warnThreshold = 70 ∧
      (s.table.entry .unresolvedMarker).penalty = 5 := by
  obtain ⟨-, -, -, hsettings⟩ :=
    settingsFor_host_values ⟨some "Ann", some .gentle, some 70⟩ namedOverride (Path.ofText "a.c")
  have hunmatched : ∀ o ∈ namedOverride.overrides,
      o.appliesTo (Path.ofText "a.c") = true → o.studentName = none := by decide +kernel
  refine ⟨_, rfl, ?_⟩
  obtain ⟨htable, hthreshold, hname⟩ := hsettings _ rfl
  exact ⟨(hname _ rfl).2 hunmatched, hthreshold _ rfl, (htable _ rfl .unresolvedMarker).1⟩

/-- An override that matches replaces a name from the command line as well as one from the editor. -/
theorem override_replaces_host_name :
    (∃ s, (namedOverride.withHost (some "Ann") none none).settingsFor
        (some (Path.ofText "a.py")) = .ok s ∧ s.studentName ≠ "Ann") ∧
    ∃ s, (apply ⟨some "Ann", none, none⟩ namedOverride).settingsFor
        (some (Path.ofText "a.py")) = .ok s ∧ s.studentName ≠ "Ann" := by
  refine ⟨⟨⟨"Sam", Preset.standard.table, 10⟩, rfl, by decide⟩,
    ⟨"Sam", Preset.standard.table, 10⟩, rfl, by decide⟩

end EditorSettings
end Server
end Neatness
