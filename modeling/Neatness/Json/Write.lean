import Neatness.Json.Value

/-!
# Writing JSON

`Json.write` is the text of a value, either in one piece or laid out with two spaces per level.
Members are written in their order, and an empty list or object stays on its line.
-/

namespace Neatness
namespace Json

/-- How much space a text gets. -/
inductive Layout where
  | compact
  /-- A line for every item, indented by two spaces per level. -/
  | pretty
deriving DecidableEq, Repr

/-- A hexadecimal digit in small letters. -/
def hexDigit (n : Nat) : Char :=
  if n < 10 then Char.ofNat (48 + n) else Char.ofNat (87 + n)

/-- A character inside a string. -/
def escape (c : Char) : List Char :=
  if c = '\x22' then ['\\', '\x22']
  else if c = '\\' then ['\\', '\\']
  else if c = '\x08' then ['\\', 'b']
  else if c = '\x0c' then ['\\', 'f']
  else if c = '\n' then ['\\', 'n']
  else if c = '\r' then ['\\', 'r']
  else if c = '\t' then ['\\', 't']
  else if c.toNat < 0x20 then
    ['\\', 'u', '0', '0', hexDigit (c.toNat / 16), hexDigit (c.toNat % 16)]
  else [c]

def quote (s : String) : List Char :=
  '\x22' :: s.toList.flatMap escape ++ ['\x22']

/-- A string; one that denotes no text is shown as the replacement character. -/
def writeString (s : Option String) : List Char :=
  quote (s.getD "\ufffd")

def writeNumber (n : Number) : List Char :=
  (if n.negative then ['-'] else []) ++ Nat.toDigits 10 n.whole ++
    (match n.fraction with
      | [] => []
      | ds => '.' :: ds.map fun d => Nat.digitChar d.val) ++
    (match n.exponent with
      | none => []
      | some e => 'e' :: (if e < 0 then ['-'] else []) ++ Nat.toDigits 10 e.natAbs)

/-- A new line at a level. -/
def Layout.newline : Layout → Nat → List Char
  | .compact, _ => []
  | .pretty, level => '\n' :: List.replicate (2 * level) ' '

def Layout.colon : Layout → List Char
  | .compact => [':']
  | .pretty => [':', ' ']

mutual

/-- The text of a value that stands at a level. -/
def writeAt (layout : Layout) (level : Nat) : Json → List Char
  | .null => ['n', 'u', 'l', 'l']
  | .bool true => ['t', 'r', 'u', 'e']
  | .bool false => ['f', 'a', 'l', 's', 'e']
  | .num n => writeNumber n
  | .str s => writeString s
  | .arr [] => ['[', ']']
  | .arr (v :: vs) =>
    '[' :: layout.newline (level + 1) ++ writeAt layout (level + 1) v ++
      writeItems layout level vs
  | .obj [] => ['\x7b', '\x7d']
  | .obj ((s, v) :: ms) =>
    '\x7b' :: layout.newline (level + 1) ++ writeString s ++ layout.colon ++
      writeAt layout (level + 1) v ++ writeMembers layout level ms

/-- The items behind the first one, and the end of the list. -/
def writeItems (layout : Layout) (level : Nat) : List Json → List Char
  | [] => layout.newline level ++ [']']
  | v :: vs =>
    ',' :: layout.newline (level + 1) ++ writeAt layout (level + 1) v ++
      writeItems layout level vs

/-- The members behind the first one, and the end of the object. -/
def writeMembers (layout : Layout) (level : Nat) : List (Option String × Json) → List Char
  | [] => layout.newline level ++ ['\x7d']
  | (s, v) :: ms =>
    ',' :: layout.newline (level + 1) ++ writeString s ++ layout.colon ++
      writeAt layout (level + 1) v ++ writeMembers layout level ms

end

def write (layout : Layout) (v : Json) : String :=
  String.ofList (writeAt layout 0 v)

end Json
end Neatness
