/-!
# Glob patterns

A pattern selects paths.  `?` stands for one byte and `*` for any bytes, slashes included; `[..]`
is a class of bytes, `{a,b}` a choice that may nest, and a backslash takes away the meaning of the
next character.  Two stars stand for whole folders when slashes or the ends of the pattern are
around them: `**/` at the start, `/**/` inside, and `/**` at the end.  Anywhere else two stars are
just two stars.
-/

namespace Neatness
namespace Glob

/-- An element of a pattern. -/
inductive Token where
  | literal (c : Char)
  /-- Any one byte. -/
  | any
  /-- Any bytes. -/
  | star
  /-- Any folders in front of the rest. -/
  | leadingFolders
  /-- A slash, possibly with folders around it. -/
  | innerFolders
  /-- A slash and everything below. -/
  | trailingFolders
  /-- One byte in, or not in, some ranges. -/
  | set (negated : Bool) (ranges : List (Char × Char))
  | choice (branches : List (List Token))
deriving Repr

/-- Why a text is no pattern. -/
inductive PatternError where
  | unclosedSet
  | reversedRange
  | unclosedChoice
  | unopenedChoice
  | danglingEscape
deriving DecidableEq, Repr

/-! ## Classes -/

/-- A class under way. -/
structure OpenSet where
  negated : Bool
  /-- The ranges so far, last first. -/
  ranges : List (Char × Char) := []
  /-- Nothing has been read yet. -/
  fresh : Bool := true
  /-- A hyphen is waiting for the end of its range. -/
  hyphen : Bool := false
deriving DecidableEq, Repr

namespace OpenSet

def add (s : OpenSet) (c : Char) : Except PatternError OpenSet :=
  if s.hyphen then
    match s.ranges with
    | (first, _) :: outer =>
      if c < first then .error .reversedRange
      else .ok { s with ranges := (first, c) :: outer, fresh := false, hyphen := false }
    | [] => .ok { s with ranges := [(c, c)], fresh := false, hyphen := false }
  else if c = '-' && !s.fresh then .ok { s with hyphen := true }
  else .ok { s with ranges := (c, c) :: s.ranges, fresh := false }

/-- The finished class; a hyphen at the end stands for itself. -/
def close (s : OpenSet) : Token :=
  .set s.negated (if s.hyphen then ('-', '-') :: s.ranges else s.ranges).reverse

end OpenSet

/-! ## Two stars -/

/-- Whole folders instead of the slash before them; next to folders already there they add
nothing. -/
def foldersFor (folders : Token) : List Token → List Token
  | .leadingFolders :: outer => .leadingFolders :: outer
  | .trailingFolders :: outer => .trailingFolders :: outer
  | _ :: outer => folders :: outer
  | [] => [folders]

/-- The elements after two stars, last first, and whether the slash behind the stars belongs to
them.  `before` and `next` are the characters around the stars, `inChoice` says whether a choice is
open. -/
def twoStars (before next : Option Char) (inChoice : Bool) (current : List Token) :
    List Token × Bool :=
  let opens := before == some '/' ||
    (inChoice && (before == some ',' || before == some '\x7b'))
  let closes := next.isNone ||
    (inChoice && (next == some ',' || next == some '\x7d'))
  -- At the start of the pattern, and of a branch, there is no slash to take the place of.
  if current.isEmpty then
    if next.isNone then ([.leadingFolders], false)
    else if next == some '/' then ([.leadingFolders], true)
    else ([.star, .star], false)
  else if opens && closes then (foldersFor .trailingFolders current, false)
  else if opens && next == some '/' then (foldersFor .innerFolders current, true)
  else (.star :: .star :: current, false)

/-! ## The reader -/

/-- A choice under way: its finished branches, last first, and the elements in front of it. -/
structure OpenChoice where
  branches : List (List Token)
  /-- Elements in front of the choice. -/
  outer : List Token
deriving Repr

/-- Read on: `before` is the character just read, `openSet` a class under way, `current` the
elements of this branch, last first, and `choices` the open choices, innermost first. -/
def readFrom (before : Option Char) (openSet : Option OpenSet) (current : List Token)
    (choices : List OpenChoice) : List Char → Except PatternError (List Token)
  | [] =>
    match openSet, choices with
    | some _, _ => .error .unclosedSet
    | none, _ :: _ => .error .unclosedChoice
    | none, [] => .ok current.reverse
  | c :: cs =>
    match openSet with
    | some s =>
      -- Right behind the opening bracket a closing one is a character of the class.
      if c = ']' && !s.fresh then readFrom (some c) none (s.close :: current) choices cs
      else
        match s.add c with
        | .error e => .error e
        | .ok s => readFrom (some c) (some s) current choices cs
    | none =>
      if c = '?' then readFrom (some c) none (.any :: current) choices cs
      else if c = '*' then
        match cs with
        | '*' :: '/' :: cs =>
          match twoStars before (some '/') (!choices.isEmpty) current with
          | (current, true) => readFrom (some '/') none current choices cs
          | (current, false) =>
            readFrom (some '/') none (.literal '/' :: current) choices cs
        | '*' :: cs =>
          let (current, _) := twoStars before cs.head? (!choices.isEmpty) current
          readFrom (some '*') none current choices cs
        | cs => readFrom (some c) none (.star :: current) choices cs
      else if c = '[' then
        match cs with
        | '!' :: cs => readFrom (some '!') (some ⟨true, [], true, false⟩) current choices cs
        | '^' :: cs => readFrom (some '^') (some ⟨true, [], true, false⟩) current choices cs
        | cs => readFrom (some c) (some ⟨false, [], true, false⟩) current choices cs
      else if c = '\x7b' then readFrom (some c) none [] (⟨[], current⟩ :: choices) cs
      else if c = '\x7d' then
        match choices with
        | [] => .error .unopenedChoice
        | ⟨branches, outer⟩ :: choices =>
          readFrom (some c) none (.choice ((current.reverse :: branches).reverse) :: outer)
            choices cs
      else if c = ',' then
        match choices with
        | [] => readFrom (some c) none (.literal ',' :: current) [] cs
        | ⟨branches, outer⟩ :: choices =>
          readFrom (some c) none [] (⟨current.reverse :: branches, outer⟩ :: choices) cs
      else if c = '\\' then
        match cs with
        | [] => .error .danglingEscape
        | e :: cs => readFrom (some e) none (.literal e :: current) choices cs
      else readFrom (some c) none (.literal c :: current) choices cs

def read (pattern : String) : Except PatternError (List Token) :=
  readFrom none none [] [] pattern.toList

end Glob
end Neatness
