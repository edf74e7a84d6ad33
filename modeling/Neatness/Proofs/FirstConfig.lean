import Neatness.CommandLine.Init
import Neatness.Proofs.ConfigChain
import Neatness.Proofs.Layers
import Neatness.Proofs.ReadBack
import Neatness.Proofs.Spelling

/-!
# The first configuration

`init` puts a name into a text of which all else is fixed.  This module reads that text back.

* `parse_initialConfig` cuts the text at the name: what stands in front of it and the name itself
  are cut into tokens whatever follows, and the rest is the same for every name.
* `settingsFor_firstConfig` says that the values that the text spells out are those that hold
  anyway.
* `Disk.readText_putText` reads a file that was written to a place; all ways through the tree stay,
  because the place was no directory before.
-/

namespace Neatness

/-! ## A file on a new place -/

namespace FileTree

variable {t : FileTree} {place : Place} {node : Node}

theorem node?_put (hroot : place ≠ []) (other : Place) :
    (t.put place node).node? other = if other = place then some node else t.node? other := by
  unfold node? put
  by_cases hother : other = place
  · subst hother
    simp [hroot]
  · have hfind : (t.entries.filter fun e => e.1 != place).find? (fun e => e.1 == other) =
        t.entries.find? fun e => e.1 == other := by
      rw [List.find?_filter]
      congr 1
      funext e
      by_cases he : e.1 = other
      · simp [he, hother]
      · simp [he]
    rw [List.find?_cons_of_neg (by simpa using Ne.symm hother), hfind, if_neg hother]

/-- Ways through the tree stay when a node is put on a place that is no directory. -/
theorem follow_put (hroot : place ≠ []) (hnode : t.node? place ≠ some .dir) {here goal : Place}
    {ns : List Name} (h : t.follow here ns = .ok goal) :
    (t.put place node).follow here ns = .ok goal := by
  induction ns generalizing here with
  | nil => exact h
  | cons n ns ih =>
      obtain ⟨hdir, hrest⟩ := follow_cons_eq_ok_iff.1 h
      have hne : here ≠ place := by
        rintro rfl
        exact hnode hdir
      rw [follow_cons_eq_ok_iff, node?_put hroot, if_neg hne]
      exact ⟨hdir, ih hrest⟩

end FileTree

namespace Disk

variable {d : Disk} {p : Path} {place : Place}

/-- The disk with a text on a place. -/
def putText (d : Disk) (place : Place) (text : String) : Disk :=
  { d with tree := d.tree.put place (.file (Utf8.ofText text)) }

theorem isDir_iff_canonical? :
    d.isDir p = true ↔ ∃ top, d.canonical? p = some top ∧ d.tree.node? top = some .dir := by
  rw [← node_eq_ok_iff]
  unfold isDir
  cases d.node p with
  | error e => simp
  | ok n => cases n <;> simp

theorem resolve_putText (hroot : place ≠ []) (hnode : d.tree.node? place ≠ some .dir)
    {goal : Place} (h : d.resolve p = .ok goal) (text : String) :
    (d.putText place text).resolve p = .ok goal := by
  obtain ⟨hempty, hfollow⟩ := resolve_eq_ok h
  unfold resolve
  rw [hempty, if_neg (by decide)]
  exact FileTree.follow_put hroot hnode hfollow

/-- What was written to the place of a path is read from the path. -/
theorem readText_putText (hroot : place ≠ []) (hnode : d.tree.node? place ≠ some .dir)
    (h : d.resolve p = .ok place) (text : String) :
    (d.putText place text).readText p = .ok text := by
  have hfile : (d.putText place text).tree.node? place = some (.file (Utf8.ofText text)) := by
    rw [putText, FileTree.node?_put hroot, if_pos rfl]
  have hplace : (d.putText place text).canonical? p = some place :=
    canonical?_eq_some_iff.2 ⟨resolve_putText hroot hnode h text, by rw [hfile]; rfl⟩
  exact readText_eq_ok_iff.2 ⟨place, _, hplace, hfile, Utf8.toText?_eq_some_iff.2 rfl⟩

/-- The place of a configuration in a directory. -/
theorem resolve_join_fileName {top : Place} (htop : d.canonical? p = some top)
    (hdir : d.tree.node? top = some .dir) :
    d.resolve (p.join Config.fileName) = .ok (top ++ [Config.fileName.bytes]) := by
  obtain ⟨hrelative, hidle, hup, hpieces⟩ := Config.fileName_facts
  obtain ⟨-, hfollow⟩ := resolve_eq_ok (canonical?_eq_some_iff.1 htop).1
  rw [d.resolve_join_name p hrelative hpieces hidle, FileTree.follow_append]
  refine ⟨top, FileTree.follow_moving_eq_ok hfollow, FileTree.follow_cons_eq_ok_iff.2 ⟨hdir, ?_⟩⟩
  rw [hidle, if_neg (by decide), if_neg hup, FileTree.follow]

end Disk

namespace CommandLine

open Json (memberTokens Cuts)

/-! ## What the text says -/

/-- What the text says about the rules. -/
def firstRulesForm : Json :=
  .record [("absolute-path", .record [("penalty", .nat 40), ("fatal", .bool true)]),
    ("deep-indentation", .text "on")]

/-- The members behind the name. -/
def laterMembers (preset : Preset) : List (String × Json) :=
  [("preset", .text preset.name), ("warnThreshold", .nat preset.warnThreshold.toNat),
    ("exceptPass", .bool true), ("rules", firstRulesForm),
    ("ignore", .arr (["**/node_modules/**", "**/target/**", "**/*.min.js"].map .text))]

/-- What the text of a first configuration says. -/
def initialForm (name : String) (preset : Preset) : Json :=
  .record (("studentName", .text name) :: laterMembers preset)

/-- The text behind the name does not depend on the name, and is cut into the later members. -/
theorem exists_later (preset : Preset) : ∃ later : String,
    (∀ name, initialConfig name preset =
      "\x7b\n" ++ "  \"studentName\": " ++ String.ofList (Json.quote name) ++ later) ∧
    Json.Token.scan later.toList =
      some (memberTokens ((laterMembers preset).map fun m => (some m.1, m.2))) := by
  apply Exists.intro
  constructor
  · -- Grouped to the right, what stands behind the name is one text.
    intro name
    unfold initialConfig
    repeat rw [String.append_assoc]
  · -- The pieces are taken apart before they are computed; the whole text at once is slow.
    simp only [String.toList_append]
    cases preset <;> decide +kernel

/-- The text is read the same for every name. -/
theorem parse_initialConfig (name : String) (preset : Preset) :
    Json.parse (initialConfig name preset) = some (initialForm name preset) := by
  obtain ⟨later, htext, hlater⟩ := exists_later preset
  have hfront : ("\x7b\n" ++ "  \"studentName\": ").toList =
      ['\x7b'] ++ Json.Layout.newline .pretty 1 ++ Json.quote "studentName" ++
        Json.Layout.colon .pretty := by decide +kernel
  have hcuts := (Cuts.openObj.name .pretty 1 "studentName").append (Cuts.quoted name)
  refine Json.parse_of_scan ?_
  rw [htext, String.toList_append, String.toList_append, hfront, String.toList_ofList, hcuts,
    hlater]
  rfl

/-! ## The configuration -/

/-- The rules that are spelled out. -/
def firstRules : RuleMap :=
  .ofList [("absolute-path", .custom (some 40) (some true) none),
    ("deep-indentation", .toggle true)]

/-- The configuration that the text is read as. -/
def firstConfig (name : String) (preset : Preset) : Config where
  studentName := some name
  preset := some preset
  warnThreshold := some preset.warnThreshold
  exceptPass := some true
  rules := firstRules
  ignore := ["**/node_modules/**", "**/target/**", "**/*.min.js"]

theorem ofJson?_initialForm (name : String) (preset : Preset) :
    Config.ofJson? (initialForm name preset) = some (firstConfig name preset) := by
  have hslots : (initialForm name preset).slots? Config.fields false =
      some [none, some (.text name), some (.text preset.name),
        some (.nat preset.warnThreshold.toNat), none, some (.bool true), some firstRulesForm,
        some (.arr (["**/node_modules/**", "**/target/**", "**/*.min.js"].map .text)), none,
        none] := rfl
  have hrules : RuleMap.ofJson? firstRulesForm = some firstRules := by decide +kernel
  have hpreset : Preset.ofJson? (.text preset.name) = some preset := Preset.ofName?_name preset
  simp [Config.ofJson?, hslots, hrules, hpreset, Json.orElse, Json.listOf?, firstConfig]

/-- The rules that are spelled out are treated so by every preset anyway. -/
theorem apply_firstRules (preset : Preset) :
    firstRules.apply (preset.table.setExceptPass true) = .ok preset.table := by
  have hknown : ∀ key ∈ firstRules.entries.map Prod.fst, Rule.ofName? key ≠ none := by
    decide +kernel
  have hadjusted : preset.table = firstRules.adjusted (preset.table.setExceptPass true) := by
    cases preset <;> decide +kernel
  exact RuleMap.apply_eq_ok_iff.2 ⟨fun key ⟨hmem, hnone⟩ => hknown key hmem hnone, hadjusted⟩

/-- So the name and the preset decide on the settings for all files. -/
theorem settingsFor_firstConfig (name : String) (preset : Preset) (file : Option Path) :
    (firstConfig name preset).settingsFor file =
      .ok ⟨name, preset.table, preset.warnThreshold⟩ := by
  rw [Config.settingsFor_eq_ok_iff]
  cases file <;>
    simp [Config.settings, Config.baseSettings, Config.effectivePreset, Config.applyOverrides,
      firstConfig, apply_firstRules]

/-- They are the settings of a configuration that says nothing else. -/
theorem settingsFor_name_preset (name : String) (preset : Preset) (file : Option Path) :
    Config.settingsFor { studentName := some name, preset := some preset } file =
      .ok ⟨name, preset.table, preset.warnThreshold⟩ := by
  have hempty : RuleMap.empty.apply preset.table = .ok preset.table := rfl
  have hexcept : preset.table.setExceptPass preset.table.exceptPass = preset.table := rfl
  rw [Config.settingsFor_eq_ok_iff]
  cases file <;>
    simp [Config.settings, Config.baseSettings, Config.effectivePreset, Config.applyOverrides,
      hempty, hexcept]

/-! ## Writing it, and reading it back -/

section Written

variable {d : Disk} {r : InitRequest} {dir : Path} {top : Place}

/-- In a directory without a configuration, one is written to its place. -/
theorem init_of_new (hasked : r.dir.getD d.cwdPath = dir) (htop : d.canonical? dir = some top)
    (hdir : d.tree.node? top = some .dir)
    (hnew : d.has (dir.join Config.fileName) = false) :
    d.tree.node? (top ++ [Config.fileName.bytes]) = none ∧
    (init d r).1 = d.putText (top ++ [Config.fileName.bytes])
      (initialConfig (r.name.getD "") (r.preset.getD .standard)) ∧
    (init d r).2.exit = 0 := by
  have hresolve := Disk.resolve_join_fileName htop hdir
  have hnone : d.tree.node? (top ++ [Config.fileName.bytes]) = none := by
    cases hnode : d.tree.node? (top ++ [Config.fileName.bytes]) with
    | none => rfl
    | some n =>
        have hplace : d.canonical? (dir.join Config.fileName) = some _ :=
          Disk.canonical?_eq_some_iff.2 ⟨hresolve, by rw [hnode]; rfl⟩
        rw [Disk.has_iff_canonical?.2 ⟨_, hplace⟩] at hnew
        cases hnew
  have hwrite : ∀ text, d.writeText (dir.join Config.fileName) text =
      .ok (d.putText (top ++ [Config.fileName.bytes]) text) := by
    intro text
    simp [Disk.writeText, bind, Except.bind, hresolve, hdir, hnone, Disk.putText]
  refine ⟨hnone, ?_⟩
  simp [init, hasked, hnew, hwrite]

/-- A directory that holds a configuration is left alone. -/
theorem init_of_holds (hdir : d.canonical? (r.dir.getD d.cwdPath) = some top)
    (hnode : d.tree.node? top = some .dir) (hholds : Config.HoldsConfig d.tree top) :
    (init d r).1 = d ∧ (init d r).2.exit = 0 := by
  have hplace := Disk.canonical?_eq_some_iff.2 ⟨Disk.resolve_join_fileName hdir hnode, hholds⟩
  have hhas := Disk.has_iff_canonical?.2 ⟨_, hplace⟩
  simp [init, hhas]

/-- The text of a first configuration in a directory is what is loaded there. -/
theorem load_initialConfig {name : String} {preset : Preset}
    (hread : d.readText (dir.join Config.fileName) = .ok (initialConfig name preset)) :
    Config.load d dir none = .ok (firstConfig name preset) := by
  have hfile : Config.readFile d (dir.join Config.fileName) = .ok (firstConfig name preset) := by
    rw [Config.readFile_eq_ok_iff]
    refine ⟨_, hread, ?_⟩
    rw [Config.parse, parse_initialConfig, Option.bind_some, ofJson?_initialForm]
  obtain ⟨place, hon⟩ := Config.exists_link_of_readFile hfile
  have hin : Config.isIn d dir = true := Disk.has_iff_canonical?.2 ⟨place, hon.place_eq⟩
  have hfind : Config.find? d dir = some (dir.join Config.fileName) := by
    rw [Config.find?, Config.nearest, Path.outward, Path.outwardFrom, List.find?_cons_of_pos hin]
    rfl
  rw [Config.load, hfind]
  exact Config.loadChain_of_last hon List.not_mem_nil rfl

end Written

/-- A first configuration in a directory without one is valid, and is loaded there as one under
which all files have the name that was given and the table and threshold of the preset, as if it
said nothing but the name and the preset.  Another one in this directory, however its path is
written, changes nothing. -/
theorem init_reads_back (d : Disk) (r : InitRequest) (dir : Path)
    (hasked : r.dir.getD d.cwdPath = dir) (hdir : d.isDir dir = true)
    (hnew : d.has (dir.join Config.fileName) = false) :
    ∃ after, (init d r).1 = after ∧ (init d r).2.exit = 0 ∧
      (∃ text form, after.readText (dir.join Config.fileName) = .ok text ∧
        Json.parse text = some form) ∧
      (∃ c, Config.load after dir none = .ok c ∧ ∀ file,
        c.settingsFor file = .ok ⟨r.name.getD "", (r.preset.getD .standard).table,
          (r.preset.getD .standard).warnThreshold⟩ ∧
        c.settingsFor file = Config.settingsFor
          { studentName := r.name.getD "", preset := r.preset.getD .standard } file) ∧
      ∀ again : InitRequest,
        after.canonical? (again.dir.getD after.cwdPath) = after.canonical? dir →
          (init after again).1 = after ∧ (init after again).2.exit = 0 := by
  obtain ⟨top, htop, hnode⟩ := Disk.isDir_iff_canonical?.1 hdir
  obtain ⟨hnone, hinit, hexit⟩ := init_of_new hasked htop hnode hnew
  generalize r.name.getD "" = name at hinit ⊢
  generalize r.preset.getD .standard = preset at hinit ⊢
  have hroot : top ++ [Config.fileName.bytes] ≠ [] := by simp
  have hfree : d.tree.node? (top ++ [Config.fileName.bytes]) ≠ some .dir := by simp [hnone]
  have hread := Disk.readText_putText hroot hfree (Disk.resolve_join_fileName htop hnode)
    (initialConfig name preset)
  refine ⟨_, hinit, hexit, ⟨_, _, hread, parse_initialConfig name preset⟩,
    ⟨_, load_initialConfig hread, fun file => ?_⟩, fun again hsame => ?_⟩
  · rw [settingsFor_firstConfig, settingsFor_name_preset]
    exact ⟨rfl, rfl⟩
  · -- The directory is where it was, and the file that was written is in it.
    have hnode' : FileTree.node? (d.putText (top ++ [Config.fileName.bytes])
        (initialConfig name preset)).tree top = some .dir := by
      rw [Disk.putText, FileTree.node?_put hroot, if_neg (by simp), hnode]
    have hplace := Disk.canonical?_eq_some_iff.2
      ⟨Disk.resolve_putText hroot hfree (Disk.canonical?_eq_some_iff.1 htop).1 _,
        by rw [hnode']; rfl⟩
    refine init_of_holds (hsame.trans hplace) hnode' ?_
    rw [Config.HoldsConfig, Disk.putText, FileTree.node?_put hroot, if_pos rfl]
    rfl

/-- An empty directory, seen from the root. -/
def emptyFolder : Disk where
  tree := ⟨[([Utf8.ofText "w"], .dir)]⟩

/-- A first configuration for it, with a name that needs escapes. -/
def awkwardRequest : InitRequest where
  name := "\"\\\n\x01"
  preset := some .gentle
  dir := some (Path.ofText "w")

/-- The name is read back, and another request for the directory changes nothing. -/
theorem init_reads_back_awkwardName :
    ∃ after, (init emptyFolder awkwardRequest).1 = after ∧
      (∃ c, Config.load after (Path.ofText "w") none = .ok c ∧
        ∀ file, c.settingsFor file = .ok ⟨"\"\\\n\x01", Preset.gentle.table, 60⟩) ∧
      (init after { name := "Ann", dir := some (Path.ofText "./w/") }).1 = after := by
  have hdir : emptyFolder.isDir (Path.ofText "w") = true := by decide +kernel
  have hnew : emptyFolder.has ((Path.ofText "w").join Config.fileName) = false := by
    decide +kernel
  obtain ⟨after, hafter, -, -, ⟨c, hload, hsettings⟩, hagain⟩ :=
    init_reads_back emptyFolder awkwardRequest _ rfl hdir hnew
  refine ⟨after, hafter, ⟨c, hload, fun file => (hsettings file).1⟩, (hagain _ ?_).1⟩
  subst hafter
  decide +kernel

end CommandLine
end Neatness
