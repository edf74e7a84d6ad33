import Neatness.Glob.Pattern
import Neatness.Path

/-!
# Matching globs

A pattern has to match the whole path, byte by byte and exactly as the path is written.  Matching
goes through the pattern once.  It keeps the set of places in the path that the elements so far can
have reached, as a list of marks: one for the start and one behind each byte.
-/

namespace Neatness
namespace Glob

/-- Marks on the places of a path: the start, and the place behind each byte. -/
abbrev Marks := List Bool

/-- The places reached by one more byte of a kind. -/
def Marks.step (p : UInt8 → Bool) (marks : Marks) (path : List UInt8) : Marks :=
  false :: List.zipWith (fun mark b => mark && p b) marks path

/-- The places reached by any number of bytes. -/
def Marks.spread (reached : Bool) : Marks → Marks
  | [] => []
  | mark :: marks => (reached || mark) :: Marks.spread (reached || mark) marks

/-- The places in one set or the other. -/
def Marks.union (a b : Marks) : Marks :=
  List.zipWith (· || ·) a b

/-- The byte lies in a range; ends beyond the basic block are taken byte by byte. -/
def rangeBytes (range : Char × Char) (b : UInt8) : Bool :=
  let first := Utf8.ofText (String.singleton range.1)
  let last := Utf8.ofText (String.singleton range.2)
  if range.1 = range.2 then first.contains b
  else
    -- The bytes of both ends stand in a row, and the hyphen is between the two inner ones.
    first.dropLast.contains b || last.tail.contains b ||
      (match first.getLast?, last.head? with
        | some low, some high => low ≤ b && b ≤ high
        | _, _ => false)

/-- The places reached by a slash. -/
def Marks.slash (marks : Marks) (path : List UInt8) : Marks :=
  marks.step (· == Path.slash) path

mutual

/-- Nothing is written for these elements. -/
def isVoid : List Token → Bool
  | [] => true
  | .choice branches :: ts => areVoid branches && isVoid ts
  | _ :: _ => false

/-- Nothing is written for any of these branches. -/
def areVoid : List (List Token) → Bool
  | [] => true
  | ts :: branches => isVoid ts && areVoid branches

end

mutual

/-- The places reached by one more element. -/
def advance (path : List UInt8) (marks : Marks) : Token → Marks
  | .literal c =>
    (Utf8.ofText (String.singleton c)).foldl (fun marks b => marks.step (· == b) path) marks
  | .any => marks.step (fun _ => true) path
  | .star => marks.spread false
  | .leadingFolders => marks.union ((marks.spread false).slash path)
  | .innerFolders =>
    let marks := marks.slash path
    marks.union ((marks.spread false).slash path)
  | .trailingFolders => (marks.slash path).spread false
  | .set negated ranges => marks.step (fun b => ranges.any (rangeBytes · b) != negated) path
  | .choice branches =>
    if areVoid branches then marks else advanceAny path marks branches

/-- The places reached by several elements in a row. -/
def advanceAll (path : List UInt8) (marks : Marks) : List Token → Marks
  | [] => marks
  | t :: ts => advanceAll path (advance path marks t) ts

/-- The places reached by one of several branches; branches without anything in them are left
out. -/
def advanceAny (path : List UInt8) (marks : Marks) : List (List Token) → Marks
  | [] => marks.map fun _ => false
  | ts :: branches =>
    if isVoid ts then advanceAny path marks branches
    else (advanceAll path marks ts).union (advanceAny path marks branches)

end

/-- The marks before the first element: only the start is reached. -/
def Marks.initial (path : List UInt8) : Marks :=
  true :: path.map fun _ => false

/-- The pattern matches the whole path; folders alone match everything. -/
def isMatch (pattern : List Token) (p : Path) : Bool :=
  match pattern with
  | [.leadingFolders] => true
  | pattern => (advanceAll p.bytes (Marks.initial p.bytes) pattern).getLast? == some true

/-! ## Sets of patterns

A set looks some patterns up by the last name of the path, or by its extension.  Two dots that lead
to the folder above are no name, so such patterns never select a path that ends in them. -/

/-- The element is a plain character. -/
def Token.isLiteral : Token → Bool
  | .literal _ => true
  | _ => false

def Token.isChar (c : Char) : Token → Bool
  | .literal d => c == d
  | _ => false

/-- The elements behind any leading folders, and whether there were some. -/
def afterFolders : List Token → Bool × List Token
  | .leadingFolders :: ts => (true, ts)
  | ts => (false, ts)

/-- Any folders, and then one name. -/
def isName (pattern : List Token) : Bool :=
  match afterFolders pattern with
  | (true, t :: ts) => (t :: ts).all fun t => t.isLiteral && !t.isChar '/'
  | _ => false

/-- Any name with one extension. -/
def isExtension (pattern : List Token) : Bool :=
  match (afterFolders pattern).2 with
  | .star :: .literal '.' :: ts =>
    ts.all fun t => t.isLiteral && !t.isChar '.' && !t.isChar '/'
  | _ => false

/-- Plain characters, possibly behind folders and a star. -/
def isSuffix (pattern : List Token) : Bool :=
  match (afterFolders pattern).2 with
  | .star :: ts => ts.all Token.isLiteral
  | ts => ts.all Token.isLiteral

/-- The last plain characters are an extension. -/
def endsInExtension (pattern : List Token) : Bool :=
  match pattern.reverse.dropWhile fun t => t.isLiteral && !t.isChar '.' && !t.isChar '/' with
  | t :: _ => t.isChar '.'
  | [] => false

/-- The pattern is looked up by the last name of a path. -/
def looksAtName (pattern : List Token) : Bool :=
  isName pattern || (!pattern.all Token.isLiteral &&
    (isExtension pattern || (!isSuffix pattern && endsInExtension pattern)))

/-- The path ends in the two dots that lead to the folder above. -/
def endsAbove (p : Path) : Bool :=
  p.bytes.reverse.takeWhile (· != Path.slash) == [Path.dot, Path.dot]

/-- The pattern, as a member of a set, selects the path. -/
def selects (pattern : List Token) (p : Path) : Bool :=
  isMatch pattern p && !(looksAtName pattern && endsAbove p)

end Glob
end Neatness
