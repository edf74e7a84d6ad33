import Neatness.Config.Read
import Neatness.FileTree
import Neatness.Glob.Set

/-!
# Finding and loading configurations

A configuration is looked for in a directory and, as long as there is none, in the directories that
its path is written in.  A configuration may name another one that it goes over; `loadChain` follows
these names until one ends the chain, and refuses a chain that comes back to a file that it has
been through.
-/

namespace Neatness

/-- Why there is no configuration, or none that can be used. -/
inductive ConfigError where
  /-- The file that was asked for does not exist. -/
  | notFound (path : Path)
  /-- A file that another one builds on does not exist. -/
  | baseNotFound (path referrer : Path)
  /-- The chain of files comes back to this one. -/
  | circular (path : Path)
  | unreadable (path : Path)
  | malformed (path : Path)
  | unknownRule (name : String)
  | badPattern (pattern : String)
deriving DecidableEq, Repr

def ConfigError.message : ConfigError → String
  | notFound path => "Config file not found: " ++ path.shown
  | baseNotFound path referrer =>
    "Extended config not found: " ++ path.shown ++ " (referenced from " ++ referrer.shown ++ ")"
  | circular path => "Circular extends detected in config: " ++ path.shown
  | unreadable path => "Failed to read config: " ++ path.shown
  | malformed path => "Invalid JSON in config: " ++ path.shown
  | unknownRule name => "Unknown rule '" ++ name ++ "' in config"
  | badPattern pattern => "Invalid ignore pattern: " ++ pattern

namespace Config

def fileName : Path :=
  Path.ofText ".gradeguardianrc.json"

/-- The settings of a configuration, with the reason why there are none. -/
def settingsFor (c : Config) (file : Option Path) : Except ConfigError Settings :=
  match c.settings file with
  | .ok s => .ok s
  | .error e => .error (.unknownRule e.name)

/-- The patterns of files that are left out. -/
def ignoreSet (c : Config) : Except ConfigError Glob.PatternSet :=
  match Glob.PatternSet.ofTexts c.ignore with
  | .ok s => .ok s
  | .error pattern => .error (.badPattern pattern)

/-! ## Upwards -/

/-- The first of a directory and the directories that its path is written in that passes a
test. -/
def nearest (test : Path → Bool) (dir : Path) : Option Path :=
  dir.outward.find? test

def isIn (d : Disk) (dir : Path) : Bool :=
  d.has (dir.join fileName)

def find? (d : Disk) (dir : Path) : Option Path :=
  (nearest (isIn d) dir).map (·.join fileName)

/-- The directory of a project: it holds a repository or a configuration. -/
def projectRoot? (d : Disk) (dir : Path) : Option Path :=
  nearest (fun dir => d.has (dir.join (Path.ofText ".git")) || isIn d dir) dir

/-! ## The chain of files -/

/-- The path of the file that a configuration builds on: read from the directory of the
configuration, and with an extension added if there is none. -/
def basePath (referrer : Path) (base : String) : Path :=
  let path := (referrer.parent?.getD (Path.ofText ".")).join (Path.ofText base)
  if path.extension?.isNone then path.withExtension (Utf8.ofText "json") else path

def readFile (d : Disk) (path : Path) : Except ConfigError Config :=
  match d.readText path with
  | .error _ => .error (.unreadable path)
  | .ok text =>
    match parse text with
    | none => .error (.malformed path)
    | some c => .ok c

/-- A configuration over all that it builds on, in at most `fuel` files; `visited` are the places
that the chain has been through. -/
def loadChain (d : Disk) : (fuel : Nat) → (visited : List Place) → Path →
    Except ConfigError Config
  | 0, _, path => .error (.circular path)
  | fuel + 1, visited, path =>
    match d.canonical? path with
    | none => .error (.unreadable path)
    | some place =>
      if visited.contains place then .error (.circular path)
      else
        match readFile d path with
        | .error e => .error e
        | .ok c =>
          match c.base with
          | none => .ok c
          | some base =>
            let next := basePath path base
            if d.has next then
              match loadChain d fuel (place :: visited) next with
              | .error e => .error e
              | .ok lower => .ok ({ c with base := none }.atop lower)
            else .error (.baseNotFound next path)

/-- A configuration file with all that it builds on.  A chain that is longer than the number of
files has been through one of them twice. -/
def loadFile (d : Disk) (path : Path) : Except ConfigError Config :=
  loadChain d (d.tree.entries.length + 1) [] path

/-- The configuration for a directory: the file that was asked for, or the one that counts there,
or nothing special. -/
def load (d : Disk) (dir : Path) (custom : Option Path) : Except ConfigError Config :=
  match custom with
  | some p =>
    let path := dir.join p
    if d.has path then loadFile d path else .error (.notFound path)
  | none =>
    match find? d dir with
    | some path => loadFile d path
    | none => .ok {}

end Config
end Neatness
