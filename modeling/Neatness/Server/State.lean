import Neatness.Config.Load
import Neatness.Controller
import Neatness.Server.Range
import Neatness.Server.Uri

/-!
# The state of the language server

The server keeps the texts of the open documents and shows the status of the active one.  Its
settings come from the configuration file and from the editor, whose values go on top.

Every operation below is one step: the server takes its lock, does the step and lets go.  An edit
is two steps, first the change of the documents and then `rescan`, so steps of other edits may come
in between.
-/

namespace Neatness
namespace Server

/-- What the editor sets. -/
structure EditorSettings where
  studentName : Option String := none
  preset : Option Preset := none
  warnThreshold : Option UInt8 := none
deriving DecidableEq, Repr

/-- A configuration under the editor's settings. -/
def EditorSettings.apply (e : EditorSettings) (c : Config) : Config :=
  let c := c.withHost e.studentName e.preset none
  { c with warnThreshold := e.warnThreshold.or c.warnThreshold }

/-- How bad a diagnostic is. -/
inductive Severity where
  /-- The submission is blocked. -/
  | error
  /-- Points are lost. -/
  | warning
deriving DecidableEq, Repr

/-- A problem as editors show it. -/
structure Diagnostic where
  range : Range
  severity : Severity
  /-- The name of the rule. -/
  code : String
  message : String
deriving DecidableEq, Repr

namespace Diagnostic

def ofProblem (text : List Char) (fatal : Bool) (p : Problem) : Diagnostic where
  range := Range.ofLocation text p.location
  severity := if fatal then .error else .warning
  code := p.rule.name
  message := p.message ++ " (-" ++ toString p.deduction.toNat ++ ")"

/-- The diagnostics of a result, in the order of its problems. -/
def ofResult (text : String) (table : RuleTable) (r : ScanResult) : List Diagnostic :=
  let cs := text.toList
  r.problems.map fun p => ofProblem cs (r.fatal && (table.entry p.rule).fatal) p

end Diagnostic

/-- The state of the server. -/
structure State where
  controller : Controller := {}
  settings : Settings := Settings.ofPreset .standard
  documents : List (Uri × String) := []
  /-- The document whose status is shown. -/
  active : Option Uri := none
  root : Option Path := none
  config : Config := {}
  editor : EditorSettings := {}
deriving DecidableEq

/-- What a rescan tells: the status, and the diagnostics of the document that was scanned. -/
structure Findings where
  status : StatusUpdate
  diagnostics : Option (Uri × List Diagnostic)
deriving DecidableEq, Repr

namespace State

def textOf? (s : State) (uri : Uri) : Option String :=
  s.documents.lookup uri

/-- The state with another text for a document. -/
def putText (s : State) (uri : Uri) (text : String) : State :=
  { s with documents := (uri, text) :: s.documents.filter (·.1 != uri) }

/-- The project's directory and the editor's settings are known. -/
def greet (s : State) (d : Disk) (root : Option Uri) (editor : Option EditorSettings) :
    State :=
  { s with
    root := (root.bind Uri.filePath?).or (Config.projectRoot? d d.cwdPath)
    editor := editor.getD s.editor }

/-- Load the configuration; when that fails, the one that was loaded before stays. -/
def reload (s : State) (d : Disk) : State × Option ConfigError :=
  match Config.load d (s.root.getD d.cwdPath) none with
  | .ok config => ({ s with config }, none)
  | .error e => (s, some e)

/-- A document was opened: it is the active one. -/
def didOpen (s : State) (uri : Uri) (text : String) : State :=
  { s.putText uri text with active := some uri }

/-- A document was edited: the last text counts, and it is the active document now. -/
def didChange (s : State) (uri : Uri) (texts : List String) : State × Trigger :=
  let s := match texts.getLast? with
    | some text => s.putText uri text
    | none => s
  if s.active = some uri then (s, .document)
  else ({ s with active := some uri }, .activeDocument)

/-- A document was closed; says whether it was the active one. -/
def didClose (s : State) (uri : Uri) : State × Bool :=
  let s := { s with documents := s.documents.filter (·.1 != uri) }
  if s.active = some uri then ({ s with active := none }, true) else (s, false)

/-- The editor's settings may be others; the configuration is loaded again. -/
def didConfigure (s : State) (d : Disk) (editor : Option EditorSettings) :
    State × Option ConfigError :=
  { s with editor := editor.getD s.editor }.reload d

def activeSettings (s : State) : Except ConfigError Settings :=
  (s.editor.apply s.config).settingsFor (s.active.bind Uri.filePath?)

/-- The state with the settings for the active document, if they can be worked out. -/
def refresh (s : State) : State :=
  match s.activeSettings with
  | .error _ => s
  | .ok settings =>
    if settings = s.settings then s
    else { s with settings, controller := s.controller.reconfigure settings }

def activeText? (s : State) : Option String :=
  s.active.bind s.textOf?

/-- Scan the active document. -/
def rescan (s : State) (trigger : Trigger) : State × Findings :=
  let s := s.refresh
  let text := s.activeText?
  let (controller, status) := s.controller.handle trigger text
  let diagnostics := match s.active, text, controller.current with
    | some uri, some text, some result =>
      some (uri, Diagnostic.ofResult text s.settings.table result)
    | _, _, _ => none
  ({ s with controller }, ⟨status, diagnostics⟩)

end State
end Server
end Neatness
