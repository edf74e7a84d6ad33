import Neatness.Config.Read
import Neatness.Report.Record
import Neatness.Server.State

/-!
# A session with an editor

What an editor sends, and what the server sends back for it.  A request gets a result or an error
code; everything else the server has to say goes out as messages.  Nothing but the greeting is
served before the greeting, and nothing at all after the shutdown.  A greeting from a place that has
no readable address is refused, and may be tried again; what is said about a document without a
readable address is passed over.
-/

namespace Neatness
namespace Server

/-! ## Messages to the editor -/

/-- How important a message is. -/
inductive Level where
  | warning
  | info
deriving DecidableEq, Repr

def Level.number : Level → Nat
  | .warning => 2
  | .info => 3

/-- A message to the editor. -/
inductive Message where
  | diagnostics (uri : Uri) (list : List Diagnostic)
  | status (update : StatusUpdate)
  | log (level : Level) (text : String)
  | note (level : Level) (text : String)
  | question (level : Level) (text : String) (choices : List String)
deriving DecidableEq, Repr

namespace Position

def toJson (p : Position) : Json :=
  .record [("line", .nat p.line.toNat), ("character", .nat p.character.toNat)]

end Position

def Severity.number : Severity → Nat
  | .error => 1
  | .warning => 2

def Diagnostic.toJson (d : Diagnostic) : Json :=
  .record [("range", .record [("start", d.range.start.toJson), ("end", d.range.stop.toJson)]),
    ("severity", .nat d.severity.number), ("code", .text d.code),
    ("source", .text "grade-guardian"), ("message", .text d.message)]

namespace Message

def method : Message → String
  | diagnostics _ _ => "textDocument/publishDiagnostics"
  | status _ => "gradeGuardian/status"
  | log _ _ => "window/logMessage"
  | note _ _ => "window/showMessage"
  | question _ _ _ => "window/showMessageRequest"

def params : Message → Json
  | diagnostics uri list =>
    .record [("uri", .text uri.text), ("diagnostics", .arr (list.map Diagnostic.toJson))]
  | status (.draw view) => view.toJson
  | status .hide => .record [("hidden", .bool true)]
  | log level text => .record [("type", .nat level.number), ("message", .text text)]
  | note level text => .record [("type", .nat level.number), ("message", .text text)]
  | question level text choices =>
    .record [("type", .nat level.number), ("message", .text text),
      ("actions", .arr (choices.map fun c => .record [("title", .text c)]))]

end Message

/-! ## Requests of the editor -/

/-- What an editor sends, with addresses as it writes them. -/
inductive Request where
  | hello (root : Option String) (options : Json)
  | ready
  | didOpen (uri text : String)
  | didChange (uri : String) (texts : List String)
  | didClose (uri : String)
  | didConfigure (settings : Json)
  | execute (command : String)
  | shutdown
deriving Repr

def Request.wantsAnswer : Request → Bool
  | .hello _ _ => true
  | .execute _ => true
  | .shutdown => true
  | _ => false

/-- Why a request is refused. -/
inductive Refusal where
  | notGreeted
  /-- It does not fit where the session stands. -/
  | misplaced
  | unreadable
deriving DecidableEq, Repr

def Refusal.code : Refusal → Int
  | .notGreeted => -32002
  | .misplaced => -32600
  | .unreadable => -32602

/-- The answer to a request. -/
inductive Answer where
  | result (value : Json)
  | error (why : Refusal)
deriving Repr

/-- What the server sends for a request. -/
structure Response where
  messages : List Message := []
  answer : Option Answer := none
deriving Repr

/-! ## The editor's settings -/

namespace EditorSettings

/-- The parts of the editor's settings. -/
def fields : List Json.Field :=
  ["studentName", "preset", "warnThreshold"].map fun name => ⟨name, .anywhere⟩

def ofJson? (v : Json) : Option EditorSettings := do
  match ← v.slots? fields false with
  | [studentName, preset, warnThreshold] =>
    return {
      studentName := ← Json.may Json.text? studentName
      preset := ← Json.may Preset.ofJson? preset
      warnThreshold := ← Json.may Json.byte? warnThreshold }
  | _ => none

/-- The section of this server in the editor's settings, or all of them if there is none. -/
def sectionOf (v : Json) : Json :=
  match v with
  | .obj members => (members.lookup (some "gradeGuardian")).getD v
  | v => v

/-- The settings that the editor has sent, as maps; malformed ones count for nothing. -/
def ofValue? (v : Json) : Option EditorSettings :=
  ofJson? (sectionOf v.asMap)

end EditorSettings

/-! ## The session -/

/-- How far a session has come. -/
inductive Phase where
  | fresh
  | running
  | closed
deriving DecidableEq, Repr

/-- A session. -/
structure Session where
  phase : Phase := .fresh
  state : State := {}
deriving DecidableEq

def showReport : String :=
  "gradeGuardian.showReport"

def greeting : Json :=
  .record [
    ("capabilities", .record [("textDocumentSync", .nat 1),
      ("executeCommandProvider", .record [("commands", .arr [.text showReport])])]),
    ("serverInfo", .record [("name", .text "grade-guardian-lsp"), ("version", .text "0.4.0")])]

/-- The messages of a rescan: diagnostics first. -/
def Findings.messages (f : Findings) : List Message :=
  (match f.diagnostics with
    | some (uri, list) => [.diagnostics uri list]
    | none => []) ++ [.status f.status]

/-- The message about the last result. -/
def reportMessage (s : State) : Message :=
  match s.controller.report? with
  | none => .note .info "No active document to grade."
  | some (.perfect text) => .note .info text
  | some (.issues header items) => .question .warning header items

/-- The state after an optional rescan, with its messages behind those given. -/
def State.publish (s : State) (trigger : Option Trigger) (messages : List Message) :
    State × Response :=
  match trigger with
  | none => (s, { messages })
  | some t =>
    let (s, findings) := s.rescan t
    (s, { messages := messages ++ findings.messages })

/-- What is said about a document; without a readable address nothing happens. -/
def State.about (s : State) (uri : String) (f : Uri → State × Response) : State × Response :=
  match Uri.parse? uri with
  | some u => f u
  | none => (s, {})

def State.serve (s : State) (d : Disk) : Request → State × Response
  | .hello _ _ => (s, { answer := some (.error .misplaced) })
  | .ready =>
    match s.reload d with
    | (s, none) => (s, { messages := [.log .info "Grade Guardian LSP initialized"] })
    | (s, some e) =>
      (s, { messages := [.log .warning ("Grade Guardian config not loaded: " ++ e.message)] })
  | .didOpen uri text =>
    s.about uri fun u => (s.didOpen u text).publish (some .activeDocument) []
  | .didChange uri texts =>
    s.about uri fun u =>
      let (s, trigger) := s.didChange u texts
      s.publish (some trigger) []
  | .didClose uri =>
    s.about uri fun u =>
      let (s, wasActive) := s.didClose u
      s.publish (if wasActive then some .activeDocument else none) [.diagnostics u []]
  | .didConfigure settings =>
    let (s, failure) := s.didConfigure d (EditorSettings.ofValue? settings)
    s.publish (some .configuration) (match failure with
      | some e => [.log .warning ("Grade Guardian config not reloaded: " ++ e.message)]
      | none => [])
  | .execute command =>
    (s, { messages := if command = showReport then [reportMessage s] else [],
          answer := some (.result .null) })
  | .shutdown => (s, { answer := some (.result .null) })

/-- Refuse a request, if it expects an answer. -/
def Response.refusal (r : Request) (why : Refusal) : Response :=
  { answer := if r.wantsAnswer then some (.error why) else none }

/-- Open a session that has not been opened; the place of the project has to be readable. -/
def Session.greet (s : Session) (d : Disk) (root : Option String) (options : Json) :
    Session × Response :=
  match root.mapM Uri.parse? with
  | none => (s, { answer := some (.error .unreadable) })
  | some root =>
    let editor := if options matches .null then none else EditorSettings.ofValue? options
    (⟨.running, s.state.greet d root editor⟩, { answer := some (.result greeting) })

def Session.serve (s : Session) (d : Disk) (r : Request) : Session × Response :=
  match s.phase, r with
  | .fresh, .hello root options => s.greet d root options
  | .fresh, r => (s, .refusal r .notGreeted)
  | .running, r =>
    let (state, response) := s.state.serve d r
    (⟨if r matches .shutdown then .closed else .running, state⟩, response)
  | .closed, r => (s, .refusal r .misplaced)

end Server
end Neatness
