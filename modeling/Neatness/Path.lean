import Neatness.Text.Utf8

/-!
# Paths

A path is the byte string that a user wrote.  It is never rewritten: `a//b`, `./a` and `a/` keep
their spelling in every message.  What a path *means* is a list of components, in which repeated
slashes and inner dots are gone; paths are compared by their components.
-/

namespace Neatness

/-- A name between two slashes. -/
abbrev Name := List UInt8

/-- A path as written. -/
structure Path where
  bytes : List UInt8
deriving DecidableEq, Repr

/-- A step of a path. -/
inductive Component where
  | root
  /-- A leading dot. -/
  | current
  | parent
  | name (n : Name)
deriving DecidableEq, Repr

namespace Path

/-- The byte between two names. -/
def slash : UInt8 := 0x2F

/-- The byte in front of an extension. -/
def dot : UInt8 := 0x2E

def ofText (s : String) : Path :=
  ⟨Utf8.ofText s⟩

def text? (p : Path) : Option String :=
  Utf8.toText? p.bytes

/-- What is shown for a path. -/
def shown (p : Path) : String :=
  Utf8.toShown p.bytes

def isAbsolute (p : Path) : Bool :=
  p.bytes.head? == some slash

def isEmpty (p : Path) : Bool :=
  p.bytes.isEmpty

/-- The pieces between the slashes, empty ones included. -/
def pieces (bytes : List UInt8) : List Name :=
  bytes.splitOn slash

/-- Pieces with slashes between them. -/
def unpieces (names : List Name) : List UInt8 :=
  [slash].intercalate names

/-- A piece that does not move: nothing, or a dot. -/
def isIdle (n : Name) : Bool :=
  n == [] || n == [dot]

/-- The two dots that lead upwards. -/
def up : Name := [dot, dot]

/-- The component of a piece that moves. -/
def component (n : Name) : Component :=
  if n = up then .parent else .name n

/-! ## The fixed start and the movable rest -/

/-- The part that no step upwards removes: the root slash, or a leading dot. -/
def start (p : Path) : List UInt8 :=
  match pieces p.bytes with
  | [] :: _ :: _ => [slash]
  | [b] :: _ => if b = dot then [dot] else []
  | _ => []

/-- The pieces behind the fixed start, without idle ones at the end. -/
def body (p : Path) : List Name :=
  ((pieces (p.bytes.drop p.start.length)).reverse.dropWhile isIdle).reverse

def components (p : Path) : List Component :=
  (match p.start with
    | [] => []
    | b :: _ => [if b = slash then .root else .current]) ++
    (p.body.filter (!isIdle ·)).map component

/-- The path without its last component; none at the root and for the empty path. -/
def parent? (p : Path) : Option Path :=
  match p.body.reverse with
  | _ :: outer => some ⟨p.start ++ unpieces ((outer.dropWhile isIdle).reverse)⟩
  | [] => if p.start = [dot] then some ⟨[]⟩ else none

/-- A path and the paths that it is written in, innermost first, in at most `fuel` steps. -/
def outwardFrom : (fuel : Nat) → Path → List Path
  | 0, _ => []
  | fuel + 1, p =>
    p :: match p.parent? with
      | some outer => outwardFrom fuel outer
      | none => []

/-- A path and the paths that it is written in, innermost first; every step makes the path
shorter. -/
def outward (p : Path) : List Path :=
  outwardFrom (p.bytes.length + 1) p

/-- The last component, if it is a name. -/
def fileName? (p : Path) : Option Name :=
  match p.body.getLast? with
  | some n => if n = up then none else some n
  | none => none

/-- A name in front of and behind its last dot; a dot at the very start does not count. -/
def splitExtension (n : Name) : Name × Option Name :=
  match n.reverse.dropWhile (· != dot) with
  | [] => (n, none)
  | [_] => (n, none)
  | _ :: stem => (stem.reverse, some (n.drop (stem.length + 1)))

def extension? (p : Path) : Option Name :=
  p.fileName?.bind fun n => (splitExtension n).2

/-- The path with another extension for its last name. -/
def withExtension (p : Path) (extension : Name) : Path :=
  match p.fileName? with
  | none => p
  | some n =>
    ⟨p.start ++ unpieces (p.body.dropLast ++ [(splitExtension n).1]) ++ dot :: extension⟩

/-- A path read from another one; an absolute path stands for itself. -/
def join (p q : Path) : Path :=
  if q.isAbsolute then q
  else if p.bytes = [] || p.bytes.getLast? == some slash then ⟨p.bytes ++ q.bytes⟩
  else ⟨p.bytes ++ slash :: q.bytes⟩

/-! ## Order -/

/-- Root, dot and two dots come before all names; names go by their bytes. -/
def componentKey : Component → List Nat
  | .root => [0]
  | .current => [1]
  | .parent => [2]
  | .name n => 3 :: n.map UInt8.toNat

/-- What paths are ordered by. -/
def key (p : Path) : List (List Nat) :=
  p.components.map componentKey

/-- The path comes no later than another one. -/
def le (p q : Path) : Bool :=
  (compare p.key q.key).isLE

def same (p q : Path) : Bool :=
  p.components == q.components

end Path
end Neatness
