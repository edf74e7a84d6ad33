import Neatness.Analyze
import Neatness.Config.Basic
import Neatness.IssueReport
import Neatness.Status

/-!
# Keeping the last result

A host that watches documents sends every change together with the text of the active document.
The controller scans it and remembers the outcome until the next change; without an active document
there is nothing to show.  New settings count from the next change on.
-/

namespace Neatness

/-- Why a document is scanned again. -/
inductive Trigger where
  | activeDocument
  | document
  | configuration
deriving DecidableEq, Repr

/-- What the host does with its status indicator. -/
inductive StatusUpdate where
  | draw (view : StatusView)
  | hide
deriving DecidableEq, Repr

/-- The settings in force and the last result. -/
structure Controller where
  settings : Settings := Settings.ofPreset .standard
  /-- The result of the last scan, if a document was active. -/
  current : Option ScanResult := none
deriving DecidableEq

namespace Controller

/-- Judges results by the threshold in force. -/
def presenter (c : Controller) : Presenter :=
  ⟨c.settings.warnThreshold⟩

/-- The controller under other settings; the last result stays. -/
def reconfigure (c : Controller) (s : Settings) : Controller :=
  { c with settings := s }

/-- Scan the active document, for whatever reason. -/
def handle (c : Controller) (_trigger : Trigger) (document : Option String) :
    Controller × StatusUpdate :=
  match document with
  | none => ({ c with current := none }, .hide)
  | some text =>
    let result := analyze c.settings.table text c.settings.studentName
    ({ c with current := some result }, .draw (c.presenter.present result))

def report? (c : Controller) : Option IssueReport :=
  c.current.map IssueReport.ofResult

end Controller
end Neatness
