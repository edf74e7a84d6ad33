import Neatness.CommandLine.Execute
import Neatness.CommandLine.WatchLoop

/-!
# The program

The outer layer: it looks at the files that a command is about, hands them over as a `Disk`, and
writes what comes back.  A file is looked at under its path; which files stand below a directory is
told on standard input, one path a line, as `find` lists them.

A configuration that is missing is named by the error that it causes, so it is looked at then, until
no error names one that exists.
-/

namespace Neatness
namespace Program

open CommandLine

/-! ## Looking at files -/

def isDirectory (path : String) : IO Bool := do
  try
    discard <| IO.FS.realPath (path ++ "/.")
    return true
  catch _ => return false

/-- Look at a path whose directory is known. -/
def look (d : Disk) (p : Path) : IO Disk := do
  if p.isEmpty then return d
  let place := Watch.Change.place d p
  if ← isDirectory p.shown then return { d with tree := d.tree.makeDir place }
  try
    let bytes ← IO.FS.readBinFile p.shown
    return { d with tree := d.tree.write place bytes.toList }
  catch _ => return { d with tree := d.tree.remove place }

/-- Look at a path and at the directories that it is written in. -/
def lookAlong (d : Disk) (p : Path) : IO Disk :=
  p.outward.reverse.foldlM look d

/-- Look at the configurations that may count in a directory. -/
def lookOutward (d : Disk) (dir : Path) : IO Disk :=
  (dir.outward.map (·.join Config.fileName)).foldlM lookAlong d

/-- Look at configurations as long as loading misses one that exists. -/
partial def lookForMissing (d : Disk) (load : Disk → Except ConfigError Config) : IO Disk := do
  let again (path : Path) : IO Disk := do
    let found ← lookAlong d path
    if found.has path then lookForMissing found load else return d
  match load d with
  | .error (.notFound path) => again path
  | .error (.baseNotFound path _) => again path
  | _ => return d

/-- Look at everything that the configuration of a request is made of. -/
def lookForConfig (d : Disk) (r : ScanRequest) : IO Disk := do
  let dir := workDir d r.path
  lookForMissing (← lookOutward d dir) fun d => loadConfig d r dir

partial def lines (s : IO.FS.Stream) : IO (List String) := do
  let line ← s.getLine
  if line.isEmpty then return []
  return String.ofList (line.toList.filter (· != '\n')) :: (← lines s)

/-- The files that are told on standard input; nobody is asked to type them. -/
def told : IO (List Path) := do
  let stdin ← IO.getStdin
  if ← stdin.isTty then return []
  return (← lines stdin).map Path.ofText

/-- The disk with nothing but the working directory. -/
def here : IO Disk := do
  let names := Path.pieces (Utf8.ofText (toString (← IO.currentDir)))
  let cwd := names.filter (!Path.isIdle ·)
  return ⟨FileTree.makeDir {} cwd, cwd⟩

def survey (r : ScanRequest) : IO Disk := do
  let d ← lookAlong (← here) r.path
  let d ← if d.isDir r.path then (← told).foldlM lookAlong d else pure d
  lookForConfig d r

/-! ## Writing -/

/-- Colours are asked for, or the terminal has them. -/
def hasColors : IO Bool := do
  match ← IO.getEnv "CLICOLOR_FORCE", ← IO.getEnv "NO_COLOR", ← IO.getEnv "CLICOLOR" with
  | some force, _, _ => return force != "0"
  | none, some _, _ => return false
  | none, none, some "0" => return false
  | none, none, _ => (← IO.getStdout).isTty

/-- Write what a command has to say. -/
def emit (colors : Bool) (o : Output) : IO Unit := do
  let stdout ← IO.getStdout
  let stderr ← IO.getStderr
  stderr.putStr (Fragment.writeAll colors o.err)
  stdout.putStr (Fragment.writeAll colors o.out)
  stdout.flush

/-! ## Commands -/

def scan (colors : Bool) (r : ScanRequest) : IO UInt32 := do
  let outcome := run (← survey r) r
  emit colors outcome.toOutput
  return outcome.exit.toUInt32

/-- Write a first configuration. -/
def start (colors : Bool) (r : InitRequest) : IO UInt32 := do
  let d ← here
  let path := (r.dir.getD d.cwdPath).join Config.fileName
  let d ← lookAlong d path
  let (after, outcome) := init d r
  if !d.has path then
    match after.readText path with
    | .ok text => IO.FS.writeFile path.shown text
    | .error _ => pure ()
  emit colors outcome.toOutput
  return outcome.exit.toUInt32

/-- Look again at the watched files and react to those that are others now. -/
partial def watchOn (colors : Bool) (r : ScanRequest) (first before : Disk) (files : List Path)
    (state : WatchState) : IO UInt32 := do
  IO.sleep 300
  let now ← lookForConfig (← files.foldlM look before) r
  let changed := files.filter fun p => now.has p && textOf? now p != textOf? before p
  let effects := changed.map fun p => (.modify, [Watch.Change.place now p])
  let (state, output) := state.run now r (state.noticesOf (Watch.events first r.path effects))
  emit colors output
  watchOn colors r first now files state

def watch (colors : Bool) (r : ScanRequest) : IO UInt32 := do
  let d ← survey r
  match watchStart d r with
  | .error outcome =>
    emit colors outcome.toOutput
    return outcome.exit.toUInt32
  | .ok (state, output) =>
    emit colors output
    let dir := Watch.watchedDir d r.path
    watchOn colors r d d (dir.join Config.fileName :: walk d dir) state

def command (args : List String) : IO UInt32 := do
  match command? args with
  | none =>
    IO.eprintln usageText
    return 2
  | some c =>
    let colors := (← hasColors) && usesColors c
    match c with
    | .scan r => if r.watch then watch colors r else scan colors r
    | .init r => start colors r
    | c =>
      let (_, outcome) := execute (← here) c
      emit colors outcome.toOutput
      return outcome.exit.toUInt32

end Program
end Neatness

def main (args : List String) : IO UInt32 :=
  Neatness.Program.command args
