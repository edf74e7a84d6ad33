import Neatness.Path

/-!
# File trees

The files that a run can see, as a value: a finite list of places, each with a file or a directory
on it, and a working directory.  A path is followed name by name, so two dots lead to the directory
that really holds the one they stand in, and every name but the last must be a directory's.

Main definitions: `Disk.resolve` gives the place of a path, and the questions `has`, `isFile`,
`isDir`, `readText` are asked of that place; `FileTree.write`, `makeDir`, `remove` and `rename`
change the tree.
-/

namespace Neatness

/-- A place in the tree: the names from the root down. -/
abbrev Place := List Name

/-- What stands on a place. -/
inductive Node where
  | file (content : List UInt8)
  | dir
deriving DecidableEq, Repr

/-- The nodes of a file system below its root. -/
structure FileTree where
  entries : List (Place × Node) := []
deriving DecidableEq, Repr

/-- Why a file could not be used. -/
inductive FileError where
  | notFound
  | notADirectory
  | isADirectory
  | notText
deriving DecidableEq, Repr

def FileError.message : FileError → String
  | notFound => "No such file or directory (os error 2)"
  | notADirectory => "Not a directory (os error 20)"
  | isADirectory => "Is a directory (os error 21)"
  | notText => "stream did not contain valid UTF-8"

namespace FileTree

/-- What stands on a place; the root is a directory. -/
def node? (t : FileTree) (place : Place) : Option Node :=
  if place = [] then some .dir else (t.entries.find? fun e => e.1 == place).map (·.2)

/-- The place that names lead to from a directory; it need not exist itself. -/
def follow (t : FileTree) (here : Place) : List Name → Except FileError Place
  | [] => .ok here
  | n :: ns =>
    match t.node? here with
    | none => .error .notFound
    | some (.file _) => .error .notADirectory
    | some .dir =>
      if Path.isIdle n then t.follow here ns
      else if n = Path.up then t.follow here.dropLast ns
      else t.follow (here ++ [n]) ns

def put (t : FileTree) (place : Place) (node : Node) : FileTree :=
  ⟨(place, node) :: t.entries.filter fun e => e.1 != place⟩

/-- Make a directory, and those above it. -/
def makeDir (t : FileTree) (place : Place) : FileTree :=
  (List.range (place.length + 1)).foldl
    (fun t n => if (t.node? (place.take n)).isSome then t else t.put (place.take n) .dir) t

/-- Write a file, and make the directories above it. -/
def write (t : FileTree) (place : Place) (content : List UInt8) : FileTree :=
  (t.makeDir place.dropLast).put place (.file content)

/-- The place is another one or lies below it. -/
def isBelow (top place : Place) : Bool :=
  top.isPrefixOf place

def remove (t : FileTree) (place : Place) : FileTree :=
  ⟨t.entries.filter fun e => !isBelow place e.1⟩

/-- Move a node, and all below it, to another place. -/
def rename (t : FileTree) (source target : Place) : FileTree :=
  let moved := t.entries.filter fun e => isBelow source e.1
  let kept := (t.remove source).remove target
  ⟨(moved.map fun e => (target ++ e.1.drop source.length, e.2)) ++ kept.entries⟩

/-- The files below a directory, by the names that lead to them from there. -/
def filesBelow (t : FileTree) (top : Place) : List (List Name) :=
  t.entries.filterMap fun e =>
    match e.2 with
    | .file _ => if isBelow top e.1 then some (e.1.drop top.length) else none
    | .dir => none

end FileTree

/-- A file tree seen from a working directory. -/
structure Disk where
  tree : FileTree
  /-- The place that relative paths start from. -/
  cwd : Place := []
deriving DecidableEq, Repr

namespace Disk

def resolve (d : Disk) (p : Path) : Except FileError Place :=
  if p.isEmpty then .error .notFound
  else d.tree.follow (if p.isAbsolute then [] else d.cwd) (Path.pieces p.bytes)

def node (d : Disk) (p : Path) : Except FileError Node := do
  match d.tree.node? (← d.resolve p) with
  | some n => .ok n
  | none => .error .notFound

def has (d : Disk) (p : Path) : Bool :=
  match d.node p with
  | .ok _ => true
  | .error _ => false

def isFile (d : Disk) (p : Path) : Bool :=
  match d.node p with
  | .ok (.file _) => true
  | _ => false

def isDir (d : Disk) (p : Path) : Bool :=
  match d.node p with
  | .ok .dir => true
  | _ => false

def readText (d : Disk) (p : Path) : Except FileError String := do
  match ← d.node p with
  | .dir => .error .isADirectory
  | .file content =>
    match Utf8.toText? content with
    | some s => .ok s
    | none => .error .notText

/-- The place of a path that exists. -/
def canonical? (d : Disk) (p : Path) : Option Place :=
  match d.resolve p with
  | .ok place => if (d.tree.node? place).isSome then some place else none
  | .error _ => none

def cwdPath (d : Disk) : Path :=
  ⟨Path.slash :: Path.unpieces d.cwd⟩

/-- Write a file into a directory that exists. -/
def writeText (d : Disk) (p : Path) (text : String) : Except FileError Disk := do
  let place ← d.resolve p
  match d.tree.node? place.dropLast with
  | none => .error .notFound
  | some (.file _) => .error .notADirectory
  | some .dir =>
    match d.tree.node? place with
    | some .dir => .error .isADirectory
    | _ => .ok { d with tree := d.tree.put place (.file (Utf8.ofText text)) }

end Disk
end Neatness
