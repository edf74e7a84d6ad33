import Neatness.Config.Load

/-!
# Layers of rule settings

The settings for a file come from the table of a preset, over which the rules of the configuration
go first and then those of every override that matches the file.  A layer is taken over as a whole
or refused for a name that is no rule's, and a later layer wins field by field.

* `RuleMap.Unknown` are the names of a layer that are no rule's, and `RuleMap.adjusted` is the table
  that a layer without such names makes.
* `RuleMap.apply_eq_ok_iff` and `RuleMap.apply_eq_error_iff` say what one layer does;
  `applyLayers_eq_ok_iff` and `applyLayers_eq_error_iff` what several do, one after the other.
* `Config.settings_eq_layers` shows that the settings for a file are the layers of the
  configuration for that file.
* `Config.Resolves` says which settings those are: for every field the last mention of it counts.
-/

namespace Neatness

/-! ## The last mention -/

/-- A value that later mentions replace is the last one that is mentioned. -/
theorem foldl_getD_eq_getLastD {α β : Type} (mention : α → Option β) (xs : List α) (b : β) :
    xs.foldl (fun b x => (mention x).getD b) b = (xs.filterMap mention).getLastD b := by
  induction xs generalizing b with
  | nil => rfl
  | cons x xs ih =>
      rw [List.foldl_cons, ih]
      cases hx : mention x with
      | none => rw [List.filterMap_cons_none hx, Option.getD_none]
      | some y =>
          rw [List.filterMap_cons_some hx, Option.getD_some, List.getLastD_cons]

/-- A field of an entry, after settings that each mention it or not, has the value that is mentioned
last. -/
theorem field_foldl_adjust {β : Type} {field : RuleEntry → β} {mention : RuleSetting → Option β}
    (hfield : ∀ s e, field (RuleSetting.adjust s e) = (mention s).getD (field e))
    (settings : List RuleSetting) (e : RuleEntry) :
    field (settings.foldl (fun e s => s.adjust e) e) =
      (settings.filterMap mention).getLastD (field e) := by
  rw [← foldl_getD_eq_getLastD]
  exact (List.foldl_hom field fun e s => (hfield s e).symm).symm

namespace RuleMap

/-! ## One layer -/

/-- A name of the layer that is no rule's. -/
def Unknown (m : RuleMap) (key : String) : Prop :=
  key ∈ m.entries.map Prod.fst ∧ Rule.ofName? key = none

/-- Every rule is adjusted by its setting, if it has one. -/
def adjustedBy (l : List (String × RuleSetting)) (t : RuleTable) : RuleTable :=
  { t with
    entry := fun r =>
      match l.lookup r.name with
      | some s => s.adjust (t.entry r)
      | none => t.entry r }

/-- The table that a layer makes of another one. -/
def adjusted (m : RuleMap) (t : RuleTable) : RuleTable :=
  adjustedBy m.entries t

/-- A setting in front of settings under other names adjusts its own rule before them. -/
theorem adjustedBy_cons {name : String} {r : Rule} (hname : Rule.ofName? name = some r)
    {l : List (String × RuleSetting)} (hl : l.lookup name = none) (s : RuleSetting)
    (t : RuleTable) : adjustedBy ((name, s) :: l) t = adjustedBy l (s.apply r t) := by
  obtain rfl := Rule.name_of_ofName? hname
  refine RuleTable.ext (fun q => ?_) rfl
  by_cases hq : q = r
  · simp [adjustedBy, RuleSetting.apply, hq, hl]
  · have hne : q.name ≠ r.name := by
      intro hsame
      rw [← hsame, Rule.ofName?_name] at hname
      exact hq (Option.some.inj hname)
    simp [adjustedBy, RuleSetting.apply, hq, List.lookup_cons, beq_false_of_ne hne]

theorem lookup_eq_none_of_lt {name : String} {l : List (String × RuleSetting)}
    (h : ∀ e ∈ l, name < e.1) : l.lookup name = none := by
  rw [List.lookup_eq_none_iff]
  intro e he
  exact bne_iff_ne.2 (String.ne_of_lt (h e he))

theorem applyAll_eq_ok_iff {l : List (String × RuleSetting)}
    (hl : l.Pairwise fun a b => a.1 < b.1) {t u : RuleTable} :
    applyAll l t = .ok u ↔ (∀ e ∈ l, Rule.ofName? e.1 ≠ none) ∧ u = adjustedBy l t := by
  induction l generalizing t with
  | nil => simp [applyAll, adjustedBy, eq_comm]
  | cons head rest ih =>
      obtain ⟨name, s⟩ := head
      obtain ⟨hlt, hrest⟩ := List.pairwise_cons.1 hl
      rw [applyAll]
      cases hname : Rule.ofName? name with
      | none => simp [hname]
      | some r =>
          rw [adjustedBy_cons hname (lookup_eq_none_of_lt hlt), List.forall_mem_cons]
          simp [hname, ih hrest]

theorem applyAll_eq_error_iff {l : List (String × RuleSetting)}
    (hl : l.Pairwise fun a b => a.1 < b.1) {t : RuleTable} {e : UnknownRule} :
    applyAll l t = .error e ↔ e.name ∈ l.map Prod.fst ∧ Rule.ofName? e.name = none ∧
      ∀ key ∈ l.map Prod.fst, Rule.ofName? key = none → e.name ≤ key := by
  induction l generalizing t with
  | nil => simp [applyAll]
  | cons head rest ih =>
      obtain ⟨name, s⟩ := head
      obtain ⟨hlt, hrest⟩ := List.pairwise_cons.1 hl
      have hle : ∀ key ∈ rest.map Prod.fst, name < key := by
        intro key hkey
        obtain ⟨entry, hentry, rfl⟩ := List.mem_map.1 hkey
        exact hlt entry hentry
      rw [applyAll]
      cases hname : Rule.ofName? name with
      | none =>
          simp only [List.map_cons, Except.error.injEq]
          constructor
          · rintro rfl
            refine ⟨List.mem_cons_self, hname, fun key hkey _ => ?_⟩
            rcases List.mem_cons.1 hkey with rfl | hkey
            · exact String.le_refl _
            · exact Std.le_of_lt (hle key hkey)
          · rintro ⟨hmem, -, hleast⟩
            rcases List.mem_cons.1 hmem with hsame | hmem
            · rw [← hsame]
            · -- A name behind the first one is larger, so it is not the least.
              have hback := hleast name List.mem_cons_self hname
              exact absurd (hle e.name hmem) (String.not_lt.2 hback)
      | some r =>
          -- The first name is a rule's, so no unknown name is meant by it.
          have hother : ∀ {key}, Rule.ofName? key = none → key ≠ name := by
            rintro key hkey rfl
            rw [hname] at hkey
            cases hkey
          simp only [ih hrest, List.map_cons]
          constructor
          · rintro ⟨hmem, hunknown, hleast⟩
            refine ⟨List.mem_cons_of_mem name hmem, hunknown, fun key hkey hkey' => ?_⟩
            exact hleast key ((List.mem_cons.1 hkey).resolve_left (hother hkey')) hkey'
          · rintro ⟨hmem, hunknown, hleast⟩
            refine ⟨(List.mem_cons.1 hmem).resolve_left (hother hunknown), hunknown, ?_⟩
            exact fun key hkey => hleast key (List.mem_cons_of_mem name hkey)

/-- A layer is taken over exactly if all its names are rules'. -/
theorem apply_eq_ok_iff {m : RuleMap} {t u : RuleTable} :
    m.apply t = .ok u ↔ (∀ key, ¬m.Unknown key) ∧ u = m.adjusted t := by
  rw [apply, applyAll_eq_ok_iff m.sorted]
  refine and_congr ⟨fun h key hkey => ?_, fun h e he hnone => ?_⟩ Iff.rfl
  · obtain ⟨hmem, hnone⟩ := hkey
    obtain ⟨e, he, rfl⟩ := List.mem_map.1 hmem
    exact h e he hnone
  · exact h e.1 ⟨List.mem_map_of_mem he, hnone⟩

/-- A layer is refused for the least of its names that is no rule's. -/
theorem apply_eq_error_iff {m : RuleMap} {t : RuleTable} {e : UnknownRule} :
    m.apply t = .error e ↔ m.Unknown e.name ∧ ∀ key, m.Unknown key → e.name ≤ key := by
  rw [apply, applyAll_eq_error_iff m.sorted]
  constructor
  · rintro ⟨hmem, hnone, hleast⟩
    exact ⟨⟨hmem, hnone⟩, fun key hkey => hleast key hkey.1 hkey.2⟩
  · rintro ⟨⟨hmem, hnone⟩, hleast⟩
    exact ⟨hmem, hnone, fun key hkey hkey' => hleast key ⟨hkey, hkey'⟩⟩

/-! ## Several layers -/

/-- A table after several layers, the first one first; the first one that is refused ends it. -/
def applyLayers : List RuleMap → RuleTable → Except UnknownRule RuleTable
  | [], t => .ok t
  | m :: ms, t =>
    match m.apply t with
    | .ok t => applyLayers ms t
    | .error e => .error e

/-- The least unknown name of the first layer that has one. -/
def IsFirstUnknown (layers : List RuleMap) (key : String) : Prop :=
  ∃ before m after, layers = before ++ m :: after ∧ (∀ b ∈ before, ∀ key, ¬b.Unknown key) ∧
    m.Unknown key ∧ ∀ other, m.Unknown other → key ≤ other

/-- Layers are taken over exactly if none of them has an unknown name. -/
theorem applyLayers_eq_ok_iff {layers : List RuleMap} {t u : RuleTable} :
    applyLayers layers t = .ok u ↔
      (∀ m ∈ layers, ∀ key, ¬m.Unknown key) ∧ u = layers.foldl (fun t m => m.adjusted t) t := by
  induction layers generalizing t with
  | nil => simp [applyLayers, eq_comm]
  | cons m ms ih =>
      rw [applyLayers, List.forall_mem_cons, List.foldl_cons]
      cases happly : m.apply t with
      | error e =>
          have hunknown := (apply_eq_error_iff.1 happly).1
          simp only [reduceCtorEq, false_iff]
          rintro ⟨⟨hknown, -⟩, -⟩
          exact hknown e.name hunknown
      | ok t' =>
          obtain ⟨hknown, rfl⟩ := apply_eq_ok_iff.1 happly
          simp only [ih]
          constructor
          · rintro ⟨hms, rfl⟩
            exact ⟨⟨hknown, hms⟩, rfl⟩
          · rintro ⟨⟨-, hms⟩, rfl⟩
            exact ⟨hms, rfl⟩

/-- Layers are refused for the least unknown name of the first layer that has one. -/
theorem applyLayers_eq_error_iff {layers : List RuleMap} {t : RuleTable} {e : UnknownRule} :
    applyLayers layers t = .error e ↔ IsFirstUnknown layers e.name := by
  induction layers generalizing t with
  | nil => simp [applyLayers, IsFirstUnknown]
  | cons m ms ih =>
      rw [applyLayers]
      cases happly : m.apply t with
      | error e' =>
          obtain ⟨hunknown, hleast⟩ := apply_eq_error_iff.1 happly
          simp only [Except.error.injEq]
          constructor
          · rintro rfl
            exact ⟨[], m, ms, rfl, by simp, hunknown, hleast⟩
          · rintro ⟨before, m', after, heq, hbefore, hunknown', hleast'⟩
            -- Two least names of one layer are the same.
            cases before with
            | nil =>
                obtain ⟨rfl, -⟩ := List.cons.inj heq
                have hname := String.le_antisymm (hleast e.name hunknown')
                  (hleast' e'.name hunknown)
                cases e
                cases e'
                exact congrArg UnknownRule.mk hname
            | cons b before =>
                obtain ⟨rfl, -⟩ := List.cons.inj heq
                exact absurd hunknown (hbefore m List.mem_cons_self e'.name)
      | ok t' =>
          obtain ⟨hknown, rfl⟩ := apply_eq_ok_iff.1 happly
          simp only [ih]
          constructor
          · rintro ⟨before, m', after, rfl, hbefore, hunknown, hleast⟩
            refine ⟨m :: before, m', after, rfl, ?_, hunknown, hleast⟩
            exact List.forall_mem_cons.2 ⟨hknown, hbefore⟩
          · rintro ⟨before, m', after, heq, hbefore, hunknown, hleast⟩
            cases before with
            | nil =>
                obtain ⟨rfl, -⟩ := List.cons.inj heq
                exact absurd hunknown (hknown e.name)
            | cons b before =>
                obtain ⟨rfl, rfl⟩ := List.cons.inj heq
                exact ⟨before, m', after, rfl, (List.forall_mem_cons.1 hbefore).2, hunknown,
                  hleast⟩

theorem entry_adjusted (m : RuleMap) (t : RuleTable) (r : Rule) :
    (m.adjusted t).entry r =
      match m.get? r.name with
      | some s => s.adjust (t.entry r)
      | none => t.entry r := rfl

/-- Several layers adjust a rule by their settings for it, one after the other. -/
theorem entry_foldl_adjusted (layers : List RuleMap) (t : RuleTable) (r : Rule) :
    (layers.foldl (fun t m => m.adjusted t) t).entry r =
      (layers.filterMap (·.get? r.name)).foldl (fun e s => s.adjust e) (t.entry r) := by
  induction layers generalizing t with
  | nil => rfl
  | cons m ms ih =>
      rw [List.foldl_cons, ih, entry_adjusted]
      cases hget : m.get? r.name with
      | none => simp only [List.filterMap_cons, hget]
      | some s => simp only [List.filterMap_cons, hget, List.foldl_cons]

theorem exceptPass_foldl_adjusted (layers : List RuleMap) (t : RuleTable) :
    (layers.foldl (fun t m => m.adjusted t) t).exceptPass = t.exceptPass := by
  induction layers generalizing t with
  | nil => rfl
  | cons m ms ih => rw [List.foldl_cons, ih, adjusted, adjustedBy]

end RuleMap

/-! ## The layers of a configuration -/

namespace Config

open RuleMap (applyLayers)

/-- The overrides that count for a file, in their order. -/
def matching (c : Config) (p : Path) : List Override :=
  c.overrides.filter (·.appliesTo p)

/-- The layers that count for a file: the rules of the configuration, then those of the overrides
that match it. -/
def layers (c : Config) (p : Path) : List RuleMap :=
  c.rules :: (c.matching p).map (·.rules)

/-- The settings of a rule that count for a file, in the order of the layers. -/
def mentions (c : Config) (p : Path) (r : Rule) : List RuleSetting :=
  (c.layers p).filterMap (·.get? r.name)

/-- The table under all layers. -/
def ground (c : Config) : RuleTable :=
  c.effectivePreset.table.setExceptPass
    (c.exceptPass.getD c.effectivePreset.table.exceptPass)

/-- The name that the header of a file should hold. -/
def nameFor (c : Config) (p : Path) : String :=
  ((c.matching p).filterMap (·.studentName)).getLastD (c.studentName.getD "")

theorem settings_some (c : Config) (p : Path) :
    c.settings (some p) =
      match c.baseSettings with
      | .error e => .error e
      | .ok s => applyOverrides (c.matching p) s := rfl

/-- Overrides are layers, with names beside them. -/
theorem applyOverrides_eq_layers (os : List Override) (s : Settings) :
    applyOverrides os s = (applyLayers (os.map (·.rules)) s.table).map fun table =>
      { s with
        studentName := os.foldl (fun name o => o.studentName.getD name) s.studentName
        table } := by
  induction os generalizing s with
  | nil => rfl
  | cons o os ih =>
      rw [applyOverrides, Override.apply, List.map_cons, applyLayers]
      cases o.rules.apply s.table with
      | error e => rfl
      | ok table => exact ih _

/-- The settings without regard to files are what the first layer makes of the table. -/
theorem baseSettings_eq (c : Config) :
    c.baseSettings = (c.rules.apply c.ground).map fun table =>
      ⟨c.studentName.getD "", table, c.warnThreshold.getD c.effectivePreset.warnThreshold⟩ := by
  unfold ground
  cases happly : c.rules.apply (c.effectivePreset.table.setExceptPass
      (c.exceptPass.getD c.effectivePreset.table.exceptPass)) with
  | error e => simp [baseSettings, happly, Except.map]
  | ok table => simp [baseSettings, happly, Except.map]

/-- The settings for a file are what its layers make of the table under them. -/
theorem settings_eq_layers (c : Config) (p : Path) :
    c.settings (some p) = (applyLayers (c.layers p) c.ground).map fun table =>
      ⟨c.nameFor p, table, c.warnThreshold.getD c.effectivePreset.warnThreshold⟩ := by
  rw [settings_some, baseSettings_eq, layers, applyLayers]
  cases c.rules.apply c.ground with
  | error e => rfl
  | ok table =>
      show applyOverrides (c.matching p) _ = _
      rw [applyOverrides_eq_layers, nameFor, foldl_getD_eq_getLastD]

/-- Settings in which every field has the value that is mentioned last for a file. -/
structure Resolves (c : Config) (p : Path) (s : Settings) : Prop where
  /-- The table lists every rule once, in the order of checking. -/
  rules : s.table.entries.map Prod.fst = Rule.all
  /-- The penalty of a rule is the last one that is mentioned, or that of the preset. -/
  penalty : ∀ r, (s.table.entry r).penalty =
    ((c.mentions p r).filterMap RuleSetting.penalty?).getLastD
      (c.effectivePreset.table.entry r).penalty
  /-- A rule blocks as it is mentioned last, or as in the preset. -/
  fatal : ∀ r, (s.table.entry r).fatal =
    ((c.mentions p r).filterMap RuleSetting.fatal?).getLastD
      (c.effectivePreset.table.entry r).fatal
  /-- A rule is switched as it is mentioned last, or as in the preset. -/
  enabled : ∀ r, (s.table.entry r).enabled =
    ((c.mentions p r).filterMap RuleSetting.enabled?).getLastD
      (c.effectivePreset.table.entry r).enabled
  /-- The name is that of the last override for the file that has one, or the general one. -/
  studentName : s.studentName = c.nameFor p
  /-- Whether idle `except` clauses count is the same for all files. -/
  exceptPass : s.table.exceptPass = c.exceptPass.getD true
  /-- The threshold is the same for all files. -/
  warnThreshold : s.warnThreshold = c.warnThreshold.getD c.effectivePreset.warnThreshold

/-- The settings that the layers for a file make have every field as mentioned last. -/
theorem resolves_layers (c : Config) (p : Path) :
    c.Resolves p ⟨c.nameFor p, (c.layers p).foldl (fun t m => m.adjusted t) c.ground,
      c.warnThreshold.getD c.effectivePreset.warnThreshold⟩ where
  rules := RuleTable.rules_entries _
  penalty r := by
    rw [RuleMap.entry_foldl_adjusted]
    exact field_foldl_adjust (fun _ _ => rfl) _ _
  fatal r := by
    rw [RuleMap.entry_foldl_adjusted]
    exact field_foldl_adjust (fun _ _ => rfl) _ _
  enabled r := by
    rw [RuleMap.entry_foldl_adjusted]
    exact field_foldl_adjust (fun _ _ => rfl) _ _
  studentName := rfl
  exceptPass := RuleMap.exceptPass_foldl_adjusted _ _
  warnThreshold := rfl

/-- Nothing is left open when every field has the value that is mentioned last. -/
theorem Resolves.eq {c : Config} {p : Path} {s u : Settings} (hs : c.Resolves p s)
    (hu : c.Resolves p u) : s = u := by
  have hentry : ∀ r, s.table.entry r = u.table.entry r := by
    intro r
    have hpenalty := (hs.penalty r).trans (hu.penalty r).symm
    have hfatal := (hs.fatal r).trans (hu.fatal r).symm
    have henabled := (hs.enabled r).trans (hu.enabled r).symm
    cases hse : s.table.entry r
    cases hue : u.table.entry r
    simp_all
  have htable : s.table = u.table :=
    RuleTable.ext hentry (hs.exceptPass.trans hu.exceptPass.symm)
  have hname := hs.studentName.trans hu.studentName.symm
  have hthreshold := hs.warnThreshold.trans hu.warnThreshold.symm
  cases s
  cases u
  simp_all

/-! ## The settings for a file -/

/-- There are settings for a file exactly if no layer has an unknown name, and they are resolved. -/
theorem settings_eq_ok_iff {c : Config} {p : Path} {s : Settings} :
    c.settings (some p) = .ok s ↔
      (∀ m ∈ c.layers p, ∀ key, ¬m.Unknown key) ∧ c.Resolves p s := by
  rw [settings_eq_layers]
  constructor
  · intro h
    cases happly : applyLayers (c.layers p) c.ground with
    | error e =>
        rw [happly] at h
        cases h
    | ok table =>
        obtain ⟨hknown, rfl⟩ := RuleMap.applyLayers_eq_ok_iff.1 happly
        rw [happly] at h
        obtain rfl := Except.ok.inj h
        exact ⟨hknown, resolves_layers c p⟩
  · rintro ⟨hknown, hresolves⟩
    rw [RuleMap.applyLayers_eq_ok_iff.2 ⟨hknown, rfl⟩, hresolves.eq (resolves_layers c p)]
    rfl

/-- There are none exactly for the least unknown name of the first layer that has one. -/
theorem settings_eq_error_iff {c : Config} {p : Path} {e : UnknownRule} :
    c.settings (some p) = .error e ↔ RuleMap.IsFirstUnknown (c.layers p) e.name := by
  rw [settings_eq_layers, ← RuleMap.applyLayers_eq_error_iff (t := c.ground)]
  cases applyLayers (c.layers p) c.ground with
  | error e' => simp [Except.map]
  | ok table => simp [Except.map]

theorem settingsFor_eq_error_iff {c : Config} {file : Option Path} {e : ConfigError} :
    c.settingsFor file = .error e ↔
      ∃ u, c.settings file = .error u ∧ e = .unknownRule u.name := by
  unfold settingsFor
  cases c.settings file with
  | ok s => simp
  | error u => simp [eq_comm]

theorem settingsFor_eq_ok_iff {c : Config} {file : Option Path} {s : Settings} :
    c.settingsFor file = .ok s ↔ c.settings file = .ok s := by
  unfold settingsFor
  cases c.settings file with
  | ok s' => simp
  | error u => simp

/-- A layer for a file has an unknown name exactly if the rules of the configuration or of an
override that matches the file do. -/
theorem exists_unknown_layers_iff {c : Config} {p : Path} :
    (∃ m ∈ c.layers p, ∃ key, m.Unknown key) ↔
      (∃ key, c.rules.Unknown key) ∨
        ∃ o ∈ c.overrides, o.appliesTo p = true ∧ ∃ key, o.rules.Unknown key := by
  simp only [layers, matching, List.mem_cons, List.mem_map, List.mem_filter]
  constructor
  · rintro ⟨m, rfl | ⟨o, ⟨ho, hmatch⟩, rfl⟩, hunknown⟩
    · exact .inl hunknown
    · exact .inr ⟨o, ho, hmatch, hunknown⟩
  · rintro (hunknown | ⟨o, ho, hmatch, hunknown⟩)
    · exact ⟨c.rules, .inl rfl, hunknown⟩
    · exact ⟨o.rules, .inr ⟨o, ⟨ho, hmatch⟩, rfl⟩, hunknown⟩

/-- There are no settings for a file exactly if some layer for it has an unknown name. -/
theorem exists_settings_error_iff {c : Config} {p : Path} :
    (∃ e, c.settings (some p) = .error e) ↔ ∃ m ∈ c.layers p, ∃ key, m.Unknown key := by
  constructor
  · rintro ⟨e, he⟩
    obtain ⟨before, m, after, hlayers, -, hunknown, -⟩ := settings_eq_error_iff.1 he
    exact ⟨m, by simp [hlayers], e.name, hunknown⟩
  · rintro ⟨m, hm, key, hunknown⟩
    cases hsettings : c.settings (some p) with
    | error e => exact ⟨e, rfl⟩
    | ok s => exact absurd hunknown ((settings_eq_ok_iff.1 hsettings).1 m hm key)

/-- What the settings for a file depend on: the values of the configuration and the overrides that
match the file. -/
theorem settings_eq_of_matching {c : Config} {p : Path} (os : List Override)
    (h : os.filter (·.appliesTo p) = c.matching p) :
    { c with overrides := os }.settings (some p) = c.settings (some p) := by
  have hmatching : matching { c with overrides := os } p = c.matching p := h
  rw [settings_some, settings_some, hmatching]
  rfl

/-- A file that no override matches has the settings that count without regard to files. -/
theorem settings_none_of_matching_nil {c : Config} {p : Path} (h : c.matching p = []) :
    c.settings (some p) = c.settings none := by
  rw [settings_some, h]
  rfl

/-- The settings for a file.  They exist exactly if neither the rules of the configuration nor those
of an override that matches the file have a name that is no rule's, and then every field has the
value that is mentioned last; otherwise the least such name of the first such layer is the reason.
Overrides that do not match never matter, and without matching ones the file does not either. -/
theorem settingsFor_file_iff (c : Config) (p : Path) :
    (∀ s, c.settingsFor (some p) = .ok s ↔
      (∀ m ∈ c.layers p, ∀ key, ¬m.Unknown key) ∧ c.Resolves p s) ∧
    (∀ e, c.settingsFor (some p) = .error e ↔
      ∃ key, RuleMap.IsFirstUnknown (c.layers p) key ∧ e = .unknownRule key) ∧
    ((∃ e, c.settingsFor (some p) = .error e) ↔
      (∃ key, c.rules.Unknown key) ∨
        ∃ o ∈ c.overrides, o.appliesTo p = true ∧ ∃ key, o.rules.Unknown key) ∧
    (∀ os : List Override, os.filter (·.appliesTo p) = c.overrides.filter (·.appliesTo p) →
      { c with overrides := os }.settingsFor (some p) = c.settingsFor (some p)) ∧
    ((∀ o ∈ c.overrides, o.appliesTo p = false) →
      c.settingsFor none = c.settingsFor (some p)) := by
  refine ⟨fun s => ?_, fun e => ?_, ?_, fun os hos => ?_, fun hnone => ?_⟩
  · rw [settingsFor_eq_ok_iff, settings_eq_ok_iff]
  · rw [settingsFor_eq_error_iff]
    simp only [settings_eq_error_iff]
    exact ⟨fun ⟨u, hu, he⟩ => ⟨u.name, hu, he⟩, fun ⟨key, hkey, he⟩ => ⟨⟨key⟩, hkey, he⟩⟩
  · rw [← exists_unknown_layers_iff, ← exists_settings_error_iff]
    simp only [settingsFor_eq_error_iff]
    exact ⟨fun ⟨_, u, hu, _⟩ => ⟨u, hu⟩, fun ⟨u, hu⟩ => ⟨_, u, hu, rfl⟩⟩
  · rw [settingsFor, settingsFor, settings_eq_of_matching os hos]
  · have hmatching : c.matching p = [] := by
      rw [matching, List.filter_eq_nil_iff]
      intro o ho
      simp [hnone o ho]
    rw [settingsFor, settingsFor, settings_none_of_matching_nil hmatching]

/-- A configuration with one override that can be used and one that cannot. -/
def twoOverrides : Config where
  overrides := [{ files := ["*.py"], studentName := some "Ann" },
    { files := ["*.c"], rules := .ofList [("no-such-rule", .toggle true)] }]

/-- An override that cannot be used is a matter of the files that it matches, and of no others. -/
theorem settingsFor_twoOverrides :
    (∃ e, twoOverrides.settingsFor (some (Path.ofText "a.c")) = .error e) ∧
    ({ twoOverrides with
        overrides := [{ files := ["*.py"], studentName := some "Ann" }] } : Config).settingsFor
      (some (Path.ofText "a.py")) = twoOverrides.settingsFor (some (Path.ofText "a.py")) ∧
    twoOverrides.settingsFor none = twoOverrides.settingsFor (some (Path.ofText "a.txt")) := by
  obtain ⟨-, -, herror, -, -⟩ := settingsFor_file_iff twoOverrides (Path.ofText "a.c")
  obtain ⟨-, -, -, hmatching, -⟩ := settingsFor_file_iff twoOverrides (Path.ofText "a.py")
  obtain ⟨-, -, -, -, hnone⟩ := settingsFor_file_iff twoOverrides (Path.ofText "a.txt")
  refine ⟨herror.2 (.inr ⟨_, List.mem_cons_of_mem _ List.mem_cons_self, ?_, "no-such-rule", ?_⟩),
    hmatching _ ?_, hnone ?_⟩
  · decide +kernel
  · exact ⟨by decide +kernel, by decide +kernel⟩
  · decide +kernel
  · decide +kernel

end Config
end Neatness
