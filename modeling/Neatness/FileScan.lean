import Neatness.Analyze
import Neatness.Config.Load

/-!
# Scanning files

A scanned file is a path with a result.  `scanWith` scans a file under a configuration;
`ScanSummary` adds several scans up.
-/

namespace Neatness

/-- A scanned file. -/
structure FileScan where
  /-- The path as written. -/
  path : Path
  result : ScanResult
deriving DecidableEq, Repr

/-- Why a file was not scanned. -/
inductive ScanError where
  | config (e : ConfigError)
  | file (path : Path) (cause : FileError)
deriving DecidableEq, Repr

namespace ScanError

/-- How the reason is told, in short. -/
def message : ScanError → String
  | config e => e.message
  | file path _ => "Failed to read file: " ++ path.shown

/-- How the reason is told, with its cause. -/
def fullMessage : ScanError → String
  | config e => e.message
  | file path cause => "Failed to read file: " ++ path.shown ++ ": " ++ cause.message

end ScanError

def Config.scan (c : Config) (d : Disk) (path : Path) : Except ScanError FileScan :=
  match c.settingsFor (some path) with
  | .error e => .error (.config e)
  | .ok s =>
    match d.readText path with
    | .error cause => .error (.file path cause)
    | .ok text => .ok ⟨path, analyze s.table text s.studentName⟩

/-- Scan a file under the configuration for a directory. -/
def scanFile (d : Disk) (path dir : Path) (custom : Option Path) : Except ScanError FileScan :=
  match Config.load d dir custom with
  | .error e => .error (.config e)
  | .ok c => c.scan d path

/-- Several scans in numbers. -/
structure ScanSummary where
  filesScanned : Nat
  /-- Mean score, rounded down; zero without files. -/
  averageScore : UInt8
  perfectFiles : Nat
  fatalFiles : Nat
  totalProblems : Nat
deriving DecidableEq, Repr

def ScanSummary.ofScans (scans : List FileScan) : ScanSummary where
  filesScanned := scans.length
  averageScore := (Score.total (scans.map (·.result.score)) / scans.length).toUInt8
  perfectFiles := scans.countP (·.result.isPerfect)
  fatalFiles := scans.countP (·.result.fatal)
  totalProblems := (scans.flatMap (·.result.problems)).length

end Neatness
