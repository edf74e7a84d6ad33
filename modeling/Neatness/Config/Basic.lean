import Neatness.Config.RuleMap
import Neatness.Glob.Match
import Neatness.Text.Utf8

/-!
# Configurations

What a configuration file may say, and what follows from it.  Every part may be left open.
`Config.atop` puts one configuration over another, `Config.withHost` puts the values that the user
gave directly on top, and `Config.settings` works out what a scan needs, for all files or for one:
an override counts for the files that one of its patterns matches, and later ones go over earlier
ones.
-/

namespace Neatness

/-- Everything that a scan depends on besides the text. -/
structure Settings where
  studentName : String
  table : RuleTable
  /-- Scores below this are blocked. -/
  warnThreshold : UInt8
deriving DecidableEq

/-- The settings of a preset, without a name. -/
def Settings.ofPreset (p : Preset) : Settings :=
  ⟨"", p.table, p.warnThreshold⟩

/-- Adjustments for some files. -/
structure Override where
  files : List String
  studentName : Option String := none
  rules : RuleMap := .empty
deriving DecidableEq

/-- A configuration. -/
structure Config where
  /-- Another configuration below this one. -/
  base : Option String := none
  studentName : Option String := none
  preset : Option Preset := none
  warnThreshold : Option UInt8 := none
  /-- The score that every file has to reach. -/
  threshold : Option UInt8 := none
  /-- An idle `except` clause counts as an empty handler. -/
  exceptPass : Option Bool := none
  rules : RuleMap := .empty
  ignore : List String := []
  extensions : List String := []
  overrides : List Override := []
deriving DecidableEq

namespace Override

/-- One of the patterns matches the path; a text that is no pattern matches nothing. -/
def appliesTo (o : Override) (p : Path) : Bool :=
  o.files.any fun pattern =>
    match Glob.read pattern with
    | .ok tokens => Glob.isMatch tokens p
    | .error _ => false

def apply (o : Override) (s : Settings) : Except UnknownRule Settings :=
  match o.rules.apply s.table with
  | .ok table => .ok { s with studentName := o.studentName.getD s.studentName, table }
  | .error e => .error e

end Override

namespace Config

/-- The extensions that are scanned when none are configured. -/
def usualExtensions : List String :=
  ["c", "cc", "cpp", "cs", "go", "h", "hpp", "html", "java", "js", "jsx", "kt", "php", "py",
    "rb", "rs", "swift", "ts", "tsx"]

/-- One configuration over another: its single values win where it has them, its rules win name
by name, its extensions win if there are any, and its patterns and overrides come behind those
below. -/
def atop (upper lower : Config) : Config where
  base := upper.base.or lower.base
  studentName := upper.studentName.or lower.studentName
  preset := upper.preset.or lower.preset
  warnThreshold := upper.warnThreshold.or lower.warnThreshold
  threshold := upper.threshold.or lower.threshold
  exceptPass := upper.exceptPass.or lower.exceptPass
  rules := upper.rules.atop lower.rules
  ignore := lower.ignore ++ upper.ignore
  extensions := if upper.extensions.isEmpty then lower.extensions else upper.extensions
  overrides := lower.overrides ++ upper.overrides

/-- The configuration with the values that the user gave directly. -/
def withHost (c : Config) (name : Option String) (preset : Option Preset)
    (threshold : Option UInt8) : Config :=
  { c with
    studentName := name.or c.studentName
    preset := preset.or c.preset
    threshold := threshold.or c.threshold }

def effectivePreset (c : Config) : Preset :=
  c.preset.getD .standard

/-- The settings before any override. -/
def baseSettings (c : Config) : Except UnknownRule Settings :=
  let preset := c.effectivePreset
  let table := preset.table.setExceptPass (c.exceptPass.getD preset.table.exceptPass)
  match c.rules.apply table with
  | .ok table =>
    .ok ⟨c.studentName.getD "", table, c.warnThreshold.getD preset.warnThreshold⟩
  | .error e => .error e

/-- Settings after several overrides, the first one first. -/
def applyOverrides : List Override → Settings → Except UnknownRule Settings
  | [], s => .ok s
  | o :: rest, s =>
    match o.apply s with
    | .ok s => applyOverrides rest s
    | .error e => .error e

/-- The settings of a configuration, for one file or without regard to any. -/
def settings (c : Config) (file : Option Path) : Except UnknownRule Settings :=
  match c.baseSettings with
  | .error e => .error e
  | .ok s =>
    match file with
    | none => .ok s
    | some p => applyOverrides (c.overrides.filter (·.appliesTo p)) s

/-- The extensions that are scanned, without dots in front. -/
def scannedExtensions (c : Config) : List String :=
  if c.extensions.isEmpty then usualExtensions
  else c.extensions.map fun e => String.ofList (e.toList.dropWhile (· == '.'))

end Config
end Neatness
