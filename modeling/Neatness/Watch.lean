import Neatness.FileTree

/-!
# Watching a directory

A watcher reports the source and configuration files that were written below a directory.  A batch
of reports is a set: source files in the order of their paths, each once, and then at most one
notice that a configuration has changed.

* `isSourceFile` says which files are documents;
* `watchedDir` is the directory that is watched for a path;
* `Notice.ofEvents` is the batch for the events that the file system has sent.
-/

namespace Neatness
namespace Watch

/-- Folders whose files are nobody's own work. -/
def foreignFolders : List Name :=
  ["node_modules", ".git", "target"].map Utf8.ofText

/-- A file with one of the extensions, outside foreign folders. -/
def isSourceFile (extensions : List String) (p : Path) : Bool :=
  !(p.components.any fun c => foreignFolders.any fun n => c == .name n) &&
    match p.extension? with
    | some e => extensions.any fun x => Utf8.ofText x == e
    | none => false

/-- What the file system tells about some paths. -/
inductive EventKind where
  | create
  /-- Something was written or moved. -/
  | modify
  | remove
  | access
deriving DecidableEq, Repr

/-- Something new may be found there. -/
def EventKind.counts : EventKind → Bool
  | create => true
  | modify => true
  | remove => false
  | access => false

/-- An event and the paths that it names. -/
structure Event where
  kind : EventKind
  paths : List Path
deriving DecidableEq, Repr

/-- Something that a host reacts to. -/
inductive Notice where
  | document (path : Path)
  | configuration
deriving DecidableEq, Repr

namespace Notice

/-- Documents by path, then the configuration. -/
def le : Notice → Notice → Bool
  | .document p, .document q => p.le q
  | .document _, .configuration => true
  | .configuration, .document _ => false
  | .configuration, .configuration => true

/-- The notices are about the same file. -/
def same : Notice → Notice → Bool
  | .document p, .document q => p.same q
  | .configuration, .configuration => true
  | _, _ => false

/-- The notice of a changed path: `configName` is the name of configuration files. -/
def ofPath? (configName : Name) (extensions : List String) (p : Path) : Option Notice :=
  if p.fileName? = some configName then some .configuration
  else if isSourceFile extensions p then some (.document p)
  else none

/-- A notice in its place among ascending ones, unless it is there. -/
def insert (n : Notice) : List Notice → List Notice
  | [] => [n]
  | m :: rest => if n.same m then m :: rest
    else if n.le m then n :: m :: rest
    else m :: insert n rest

/-- The notices of one event, one for each path that matters. -/
def ofEvent (configName : Name) (extensions : List String) (e : Event) : List Notice :=
  if e.kind.counts then e.paths.filterMap (ofPath? configName extensions) else []

/-- The notices of a batch of events, in order and each once. -/
def ofEvents (configName : Name) (extensions : List String) (events : List Event) :
    List Notice :=
  (events.flatMap (ofEvent configName extensions)).foldl (fun ns n => n.insert ns) []

end Notice

/-! ## From changes to paths -/

/-- The directory that is watched for a path: the path itself, or the directory that it is written
in. -/
def watchedDir (d : Disk) (p : Path) : Path :=
  if d.isDir p then p
  else
    match p.parent? with
    | some dir => if dir.isEmpty then Path.ofText "." else dir
    | none => Path.ofText "."

/-- A change of the file tree. -/
inductive Change where
  | write (path : Path) (content : List UInt8)
  | makeDir (path : Path)
  | remove (path : Path)
  | rename (source target : Path)
deriving DecidableEq, Repr

namespace Change

/-- The place of a path whose directories need not exist yet. -/
def place (d : Disk) (p : Path) : Place :=
  match d.resolve p with
  | .ok place => place
  | .error _ =>
    (if p.isAbsolute then [] else d.cwd) ++ (Path.pieces p.bytes).filter (!Path.isIdle ·)

def apply (d : Disk) : Change → Disk
  | .write p content => { d with tree := d.tree.write (place d p) content }
  | .makeDir p => { d with tree := d.tree.makeDir (place d p) }
  | .remove p => { d with tree := d.tree.remove (place d p) }
  | .rename p q => { d with tree := d.tree.rename (place d p) (place d q) }

/-- The directories that a change has to make on the way to a place. -/
def newDirs (d : Disk) (place : Place) : List Place :=
  (List.range (place.length + 1)).filterMap fun n =>
    if (d.tree.node? (place.take n)).isNone then some (place.take n) else none

/-- What a change makes known: the kind and the places. -/
def effects (d : Disk) : Change → List (EventKind × List Place)
  | .write p _ =>
    (newDirs d (place d p).dropLast).map (fun dir => (.create, [dir])) ++
      [(.modify, [place d p])]
  | .makeDir p => (newDirs d (place d p)).map fun dir => (.create, [dir])
  | .remove p => [(.remove, [place d p])]
  | .rename p q => [(.modify, [place d p, place d q])]

/-- The tree after several changes, and what they make known. -/
def run (d : Disk) : List Change → Disk × List (EventKind × List Place)
  | [] => (d, [])
  | c :: cs =>
    let (final, effects) := run (c.apply d) cs
    (final, c.effects d ++ effects)

end Change

/-- The path under which a place below a watched directory is reported: the names are put behind
the directory as it was written. -/
def reportedPath? (d : Disk) (dir : Path) (place : Place) : Option Path :=
  match d.canonical? dir with
  | some top =>
    if FileTree.isBelow top place && top != place then
      some ((place.drop top.length).foldl (fun p n => p.join ⟨n⟩) (d.cwdPath.join dir))
    else none
  | none => none

/-- The path can be watched: its directory exists. -/
def canWatch (d : Disk) (p : Path) : Bool :=
  d.has (watchedDir d p)

/-- The events that are sent to a watcher of a path, which was set up while the tree was `d`. -/
def events (d : Disk) (p : Path) (effects : List (EventKind × List Place)) : List Event :=
  effects.map fun (kind, places) =>
    ⟨kind, places.filterMap (reportedPath? d (watchedDir d p))⟩

end Watch
end Neatness
