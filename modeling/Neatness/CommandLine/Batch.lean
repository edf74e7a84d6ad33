import Neatness.CommandLine.Args
import Neatness.CommandLine.Outcome
import Neatness.FileScan
import Neatness.Report.Console
import Neatness.Report.Record
import Neatness.Watch

/-!
# Scanning once

A run without `--watch`: the configuration is loaded, the files are collected, scanned and
reported, and the exit status says whether all of them are good enough.

* `workDir` is the directory in which the search for a configuration starts;
* `collect` are the files to scan: the path itself, or the source files below it in the order of
  their paths, without those that the configuration leaves out;
* `scanAll` scans one file after the other, and `scanScheduled` several workers' files in any order
  in which they get to them;
* `run` puts it together.
-/

namespace Neatness
namespace CommandLine

/-- The directory that a path is about: the path, or the directory of a file. -/
def workDir (d : Disk) (p : Path) : Path :=
  if d.isFile p then
    match p.parent? with
    -- The directory of a bare name is empty, and is written as a dot.
    | some dir => if dir.isEmpty then Path.ofText "." else dir
    | none => Path.ofText "."
  else p

/-- The configuration for a request, looked for from a directory on. -/
def loadConfig (d : Disk) (r : ScanRequest) (dir : Path) : Except ConfigError Config :=
  match Config.load d dir r.config with
  | .ok c => .ok (c.withHost r.name r.preset r.threshold)
  | .error e => .error e

/-! ## The files -/

/-- The paths of the files below a directory. -/
def walk (d : Disk) (dir : Path) : List Path :=
  match d.canonical? dir with
  | some top => (d.tree.filesBelow top).map fun names =>
      names.foldl (fun p n => p.join ⟨n⟩) dir
  | none => []

/-- The files to scan; none when there is nothing at the path. -/
def collect (d : Disk) (ignored : Glob.PatternSet) (extensions : List String) (p : Path) :
    Option (List Path) :=
  if d.isFile p then some (if ignored.contains p then [] else [p])
  else if d.isDir p then
    let files := (walk d p).filter fun f =>
      Watch.isSourceFile extensions f && !ignored.contains f
    some (files.mergeSort Path.le)
  else none

/-! ## The scans -/

/-- What became of the files: the scans in the order of the files, and the failures in the order in
which they were met. -/
structure Scans where
  scans : List FileScan := []
  failures : List (Path × ScanError) := []
deriving DecidableEq, Repr

/-- Scan one file after the other. -/
def scanAll (scan : Path → Except ScanError FileScan) : List Path → Scans
  | [] => {}
  | f :: fs =>
    let later := scanAll scan fs
    match scan f with
    | .ok s => { later with scans := s :: later.scans }
    | .error e => { later with failures := (f, e) :: later.failures }

/-- A slot for every file, filled when a worker is done with it, and the failures so far. -/
structure Slots where
  slots : List (Option FileScan)
  /-- Failures, last first. -/
  failures : List (Path × ScanError) := []

/-- A worker is done with one of the files. -/
def Slots.fill (scan : Path → Except ScanError FileScan) (files : List Path) (s : Slots)
    (i : Nat) : Slots :=
  match files[i]? with
  | none => s
  | some f =>
    match scan f with
    | .ok r => { s with slots := s.slots.set i (some r) }
    | .error e => { s with failures := (f, e) :: s.failures }

/-- Scan the files in the order in which the workers get to them. -/
def scanScheduled (scan : Path → Except ScanError FileScan) (files : List Path)
    (schedule : List Nat) : Scans :=
  let done := schedule.foldl (Slots.fill scan files) ⟨files.map fun _ => none, []⟩
  ⟨done.slots.filterMap id, done.failures.reverse⟩

/-- From this many files on several workers share the files. -/
def parallelFrom : Nat := 11

/-- Scan the files of a request; workers take them in turn. -/
def scanFiles (d : Disk) (r : ScanRequest) (c : Config) (files : List Path) : Scans :=
  if r.parallel || parallelFrom ≤ files.length then
    scanScheduled (c.scan d) files (List.range files.length)
  else scanAll (c.scan d) files

/-! ## The reports -/

/-- The messages about files that could not be scanned. -/
def failureMessages (r : ScanRequest) (failures : List (Path × ScanError)) : List Fragment :=
  if r.quiet then []
  else failures.flatMap fun (f, e) =>
    message .red "Error" ("Failed to scan " ++ f.shown ++ ": " ++ e.fullMessage)

def reports (r : ScanRequest) (presenter : Presenter) (scans : List FileScan) : List Fragment :=
  let summary := ScanSummary.ofScans scans
  if r.json then
    let reporter : JsonReporter := ⟨presenter, .pretty⟩
    [.plain ((match scans with
      | [s] => reporter.report s
      | scans => reporter.reportMany scans summary) ++ "\n")]
  else
    let reporter : ConsoleReporter := ⟨presenter, r.verbose⟩
    if r.quiet then scans.flatMap fun s => reporter.line s ++ [.plain "\n"]
    else
      match scans with
      | [s] => reporter.report s
      | scans => reporter.reportMany scans summary

def isBelow (threshold : UInt8) (s : FileScan) : Bool :=
  s.result.fatal || s.result.score < threshold

/-- The message about a scan that is not good enough. -/
def belowMessage (threshold : UInt8) (s : FileScan) : List Fragment :=
  message .boldRed "Failed" (s.path.shown ++ " scored " ++ toString s.result.score.toNat ++
    (if s.result.fatal then ", blocked" else "") ++
    " (threshold " ++ toString threshold.toNat ++ ")")

/-- The end of a run that has scanned something. -/
def conclude (r : ScanRequest) (threshold : Option UInt8) (s : Scans) (written : Output) :
    Outcome :=
  let failing := match threshold with
    | some t => s.scans.filter (isBelow t)
    | none => []
  if failing.isEmpty then
    { toOutput := written, exit := if s.failures.isEmpty then 0 else 2 }
  else
    let messages := match threshold with
      | some t => if r.quiet || r.json then [] else failing.flatMap (belowMessage t)
      | none => []
    { toOutput := { written with err := written.err ++ messages }, exit := 1 }

def reportScans (r : ScanRequest) (c : Config) (s : Scans) : Outcome :=
  let messages := failureMessages r s.failures
  if s.scans.isEmpty then
    { err := messages ++ message .red "Error" "All files failed to scan", exit := 2 }
  else
    match c.settingsFor none with
    | .error e => { err := messages ++ message .boldRed "Error" e.message, exit := 2 }
    | .ok settings =>
      conclude r c.threshold s ⟨reports r ⟨settings.warnThreshold⟩ s.scans, messages⟩

def run (d : Disk) (r : ScanRequest) : Outcome :=
  match loadConfig d r (workDir d r.path) with
  | .error e => .failure e.message
  | .ok c =>
    match c.ignoreSet with
    | .error e => .failure e.message
    | .ok ignored =>
      match collect d ignored c.scannedExtensions r.path with
      | none => .failure ("Path does not exist: " ++ r.path.shown)
      | some [] => { err := message .yellow "Warning" "No source files found", exit := 2 }
      | some files => reportScans r c (scanFiles d r c files)

end CommandLine
end Neatness
