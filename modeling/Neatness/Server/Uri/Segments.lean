import Neatness.Server.Uri.Percent

/-!
# Segments of a path

A path is brought to one form: dots are resolved and characters that have no place in a segment are
escaped.  Two dots take the segment before them away, unless it is the letter of a drive.
-/

namespace Neatness
namespace Server
namespace Segments

/-- A segment that stays where it is. -/
def isDot (segment : List Char) : Bool :=
  (segment.map Char.toLower) ∈ [".", "%2e"].map String.toList

/-- A segment that leads upwards. -/
def isTwoDots (segment : List Char) : Bool :=
  (segment.map Char.toLower) ∈ ["..", ".%2e", "%2e.", "%2e%2e"].map String.toList

/-- The text is a letter and a mark for a drive. -/
def isDrive : List Char → Bool
  | [c, mark] => c.isAlpha && (mark == ':' || mark == '|')
  | _ => false

def startsWithDrive (segment : List Char) : Bool :=
  isDrive (segment.takeWhile (· != '\\'))

/-- The segments without the last one; `done` has the last one first. -/
def removeLast : (done : List (List Char)) → List (List Char)
  | [] => []
  | last :: done => if startsWithDrive last then last :: done else done

/-- The segments of a path with dots resolved; `done` are those so far, last first. -/
def resolve (done : List (List Char)) : List (List Char) → List (List Char)
  | [] => done.reverse
  | [last] =>
    if isTwoDots last then ([] :: removeLast done).reverse
    else if isDot last then ([] :: done).reverse
    else (last :: done).reverse
  | s :: rest =>
    if isTwoDots s then resolve (removeLast done) rest
    else if isDot s then resolve done rest
    else resolve (s :: done) rest

/-- Split at every character of a kind. -/
def split (isSep : Char → Bool) (cs : List Char) : List (List Char) :=
  (cs.map fun c => if isSep c then '/' else c).splitOn '/'

def path (segments : List (List Char)) : List Char :=
  segments.flatMap fun s => '/' :: Percent.encode .segment s

/-- The form of a path; a first separator only starts it. -/
def ofChars (isSep : Char → Bool) (cs : List Char) : List Char :=
  let cs := match cs with
    | c :: rest => if isSep c then rest else c :: rest
    | [] => []
  path (resolve [] (split isSep cs))

end Segments
end Server
end Neatness
