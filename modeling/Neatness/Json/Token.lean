import Neatness.Json.Value

/-!
# JSON tokens

The words of a JSON text: punctuation, literals, numbers and strings.  `Token.scan` cuts a text
into tokens and leaves out the white space between them; it refuses a text with anything else in
it, such as an unfinished string, a control character inside one, or a number with a leading zero.
-/

namespace Neatness
namespace Json

/-- A word of a JSON text. -/
inductive Token where
  | null
  | bool (value : Bool)
  | num (value : Number)
  /-- A string, if it denotes text. -/
  | str (text : Option String)
  | openArr
  | closeArr
  | openObj
  | closeObj
  | comma
  | colon
deriving DecidableEq, Repr

/-- White space between tokens. -/
def isSpace (c : Char) : Bool :=
  c == ' ' || c == '\n' || c == '\t' || c == '\r'

/-! ## Strings -/

def hexValue? (c : Char) : Option Nat :=
  if '0' ≤ c ∧ c ≤ '9' then some (c.toNat - 48)
  else if 'a' ≤ c ∧ c ≤ 'f' then some (c.toNat - 87)
  else if 'A' ≤ c ∧ c ≤ 'F' then some (c.toNat - 55)
  else none

/-- The value of four hexadecimal digits. -/
def hexUnit? (a b c d : Char) : Option Nat :=
  match hexValue? a, hexValue? b, hexValue? c, hexValue? d with
  | some a, some b, some c, some d => some (((a * 16 + b) * 16 + c) * 16 + d)
  | _, _, _, _ => none

/-- The unit is the first half of a surrogate pair. -/
def isHighHalf (n : Nat) : Bool :=
  0xD800 ≤ n && n < 0xDC00

/-- The unit is the second half of a surrogate pair. -/
def isLowHalf (n : Nat) : Bool :=
  0xDC00 ≤ n && n < 0xE000

/-- The character of a surrogate pair. -/
def pairChar (high low : Nat) : Char :=
  Char.ofNat (0x10000 + (high - 0xD800) * 0x400 + (low - 0xDC00))

def shortEscape? : Char → Option Char
  | '\x22' => some '\x22'
  | '\\' => some '\\'
  | '/' => some '/'
  | 'b' => some '\x08'
  | 'f' => some '\x0c'
  | 'n' => some '\n'
  | 'r' => some '\r'
  | 't' => some '\t'
  | _ => none

/-- One more character in front of those read so far. -/
def push (c : Char) (read : Option (List Char)) : Option (List Char) :=
  read.map (c :: ·)

/-- The rest of a string, behind its opening quote: what it denotes, and what follows its closing
quote.  `read` are the characters so far, last first, and `none` once half a pair was met. -/
def stringFrom (read : Option (List Char)) : List Char → Option (Option String × List Char)
  | [] => none
  | '\x22' :: cs => some (read.map fun r => String.ofList r.reverse, cs)
  | '\\' :: 'u' :: a :: b :: c :: d :: cs =>
    match hexUnit? a b c d with
    | none => none
    | some n =>
      if isHighHalf n then
        match cs with
        | '\\' :: 'u' :: e :: f :: g :: h :: cs' =>
          match hexUnit? e f g h with
          | none => none
          | some m =>
            if isLowHalf m then stringFrom (push (pairChar n m) read) cs'
            else stringFrom none ('\\' :: 'u' :: e :: f :: g :: h :: cs')
        | cs => stringFrom none cs
      else if isLowHalf n then stringFrom none cs
      else stringFrom (push (Char.ofNat n) read) cs
  | '\\' :: e :: cs =>
    match shortEscape? e with
    | some c => stringFrom (push c read) cs
    | none => none
  | c :: cs => if c.toNat < 0x20 then none else stringFrom (push c read) cs

/-! ## Numbers -/

def digitValue (c : Char) : Fin 10 :=
  Fin.ofNat 10 (c.toNat - 48)

/-- The number that a run of decimal digits stands for. -/
def digitsValue (ds : List Char) : Nat :=
  ds.foldl (fun n d => n * 10 + (digitValue d).val) 0

/-- Digits of an integer part: no leading zero but zero itself. -/
def integerPart? (cs : List Char) : Option (List Char × List Char) :=
  match cs.takeWhile Char.isDigit with
  | [] => none
  | '0' :: _ :: _ => none
  | ds => some (ds, cs.drop ds.length)

/-- The digits behind a point, if there is one. -/
def fractionPart? : List Char → Option (List Char × List Char)
  | '.' :: cs =>
    match cs.takeWhile Char.isDigit with
    | [] => none
    | ds => some (ds, cs.drop ds.length)
  | cs => some ([], cs)

def exponentPart? : List Char → Option (Option Int × List Char)
  | [] => some (none, [])
  | e :: cs =>
    if e == 'e' || e == 'E' then
      let (negative, cs) :=
        match cs with
        | '+' :: cs => (false, cs)
        | '-' :: cs => (true, cs)
        | cs => (false, cs)
      match cs.takeWhile Char.isDigit with
      | [] => none
      | ds =>
        let n := digitsValue ds
        some (some (if negative then -(n : Int) else n), cs.drop ds.length)
    else some (none, e :: cs)

def unsigned? (negative : Bool) (cs : List Char) : Option (Number × List Char) := do
  let (whole, cs) ← integerPart? cs
  let (fraction, cs) ← fractionPart? cs
  let (exponent, cs) ← exponentPart? cs
  return (⟨negative, digitsValue whole, fraction.map digitValue, exponent⟩, cs)

/-! ## The scanner -/

/-- The token that starts a text, and what follows it. -/
def Token.read? : List Char → Option (Token × List Char)
  | [] => none
  | '[' :: cs => some (.openArr, cs)
  | ']' :: cs => some (.closeArr, cs)
  | '\x7b' :: cs => some (.openObj, cs)
  | '\x7d' :: cs => some (.closeObj, cs)
  | ',' :: cs => some (.comma, cs)
  | ':' :: cs => some (.colon, cs)
  | '\x22' :: cs => (stringFrom (some []) cs).map fun (s, cs) => (.str s, cs)
  | 'n' :: 'u' :: 'l' :: 'l' :: cs => some (.null, cs)
  | 't' :: 'r' :: 'u' :: 'e' :: cs => some (.bool true, cs)
  | 'f' :: 'a' :: 'l' :: 's' :: 'e' :: cs => some (.bool false, cs)
  | '-' :: cs => (unsigned? true cs).map fun (n, cs) => (.num n, cs)
  | cs => (unsigned? false cs).map fun (n, cs) => (.num n, cs)

/-- The tokens of a text, in at most `fuel` steps. -/
def Token.scanFrom : (fuel : Nat) → List Char → Option (List Token)
  | 0, _ => none
  | _ + 1, [] => some []
  | fuel + 1, c :: cs =>
    if isSpace c then Token.scanFrom fuel cs
    else
      match Token.read? (c :: cs) with
      | none => none
      | some (t, rest) => (Token.scanFrom fuel rest).map (t :: ·)

/-- The tokens of a text; every step takes at least one character. -/
def Token.scan (cs : List Char) : Option (List Token) :=
  Token.scanFrom (cs.length + 1) cs

end Json
end Neatness
