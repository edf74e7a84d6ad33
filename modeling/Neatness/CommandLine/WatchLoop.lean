import Neatness.CommandLine.Batch
import Neatness.Controller

/-!
# Scanning what changes

A run with `--watch` shows the status of one file: the one that was written last.  It starts with
the file that was asked for, if it is one, and then reacts to batches of notices.  A notice about a
configuration loads it again; when that fails, the one that was loaded before stays.
-/

namespace Neatness
namespace CommandLine

/-- What the loop remembers. -/
structure WatchState where
  /-- The directory in which the search for a configuration starts, fixed at the start. -/
  dir : Path
  config : Config
  /-- The extensions of documents, fixed at the start. -/
  extensions : List String
  /-- The file whose status is shown. -/
  active : Option Path
  settings : Settings
  controller : Controller
deriving DecidableEq

def info (text : String) : List Fragment :=
  message .blue "Info" text

/-- What is written about an update for a file. -/
def showUpdate (quiet : Bool) (c : Controller) (update : StatusUpdate) (file : Path) : Output :=
  match update, c.current with
  | .draw _, some result =>
    let reporter : ConsoleReporter := ⟨c.presenter, false⟩
    if quiet then { out := reporter.line ⟨file, result⟩ ++ [.plain "\n"] }
    else { out := reporter.report ⟨file, result⟩ }
  | _, _ => { err := info (file.shown ++ " is no longer readable; status hidden") }

def textOf? (d : Disk) (file : Path) : Option String :=
  (d.readText file).toOption

/-- Scan the active file and show its status. -/
def WatchState.rescan (s : WatchState) (d : Disk) (r : ScanRequest) (trigger : Trigger)
    (file : Path) : WatchState × Output :=
  let (controller, update) := s.controller.handle trigger (textOf? d file)
  ({ s with controller }, showUpdate r.quiet controller update file)

/-- Start to watch: the state, and what is written. -/
def watchStart (d : Disk) (r : ScanRequest) : Except Outcome (WatchState × Output) :=
  let dir := workDir d r.path
  match loadConfig d r dir with
  | .error e => .error (.failure e.message)
  | .ok config =>
    let active := if d.isFile r.path then some r.path else none
    match config.settingsFor active with
    | .error e => .error (.failure e.message)
    | .ok settings =>
      if Watch.canWatch d r.path then
        let state : WatchState :=
          ⟨dir, config, config.scannedExtensions, active, settings, ⟨settings, none⟩⟩
        let hello : Output := { err := info "Watching for changes... (Ctrl+C to stop)" }
        match active with
        | none => .ok (state, hello)
        | some file =>
          let (state, shown) := state.rescan d r .activeDocument file
          .ok (state, hello ++ shown)
      else .error (.failure "Failed to create file watcher")

/-- The configuration leaves the file out; patterns that cannot be read leave nothing out. -/
def isLeftOut (c : Config) (file : Path) : Bool :=
  match c.ignoreSet with
  | .ok s => s.contains file
  | .error _ => false

/-- The settings for the active file, if they can be worked out. -/
def WatchState.refresh (s : WatchState) (file : Path) : WatchState :=
  match s.config.settingsFor (some file) with
  | .error _ => s
  | .ok settings =>
    if settings = s.settings then s
    else { s with settings, controller := s.controller.reconfigure settings }

def WatchState.step (s : WatchState) (d : Disk) (r : ScanRequest) (notice : Watch.Notice) :
    WatchState × Output :=
  match notice with
  | .configuration =>
    match loadConfig d r s.dir with
    | .error _ => (s, {})
    | .ok config =>
      let s := { s with config }
      match s.active with
      | none => (s, {})
      | some file => (s.refresh file).rescan d r .configuration file
  | .document file =>
    if isLeftOut s.config file then (s, {})
    else
      let trigger := if s.active.any (·.same file) then .document else .activeDocument
      ({ s with active := some file }.refresh file).rescan d r trigger file

/-- React to a batch of notices, one after the other. -/
def WatchState.run (s : WatchState) (d : Disk) (r : ScanRequest) :
    List Watch.Notice → WatchState × Output
  | [] => (s, {})
  | n :: ns =>
    let (s, first) := s.step d r n
    let (s, later) := s.run d r ns
    (s, first ++ later)

def WatchState.noticesOf (s : WatchState) (events : List Watch.Event) : List Watch.Notice :=
  Watch.Notice.ofEvents Config.fileName.bytes s.extensions events

end CommandLine
end Neatness
