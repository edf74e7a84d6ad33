import Neatness.Text.Utf8

/-!
# Percent escapes

In an address a character that has no place where it stands is written as the escapes of its bytes.
Every part of an address has its own set of such characters; controls and everything beyond the
basic block are in all of them, and the percent sign is in none, so escapes that are there already
stay as they are written.
-/

namespace Neatness
namespace Server
namespace Percent

/-- A part of an address. -/
inductive Part where
  /-- A path without segments, or a host of a scheme that has no rules for hosts. -/
  | free
  | fragment
  | query
  /-- A query under a scheme that is served over a network, or names files. -/
  | knownQuery
  | segment
  | user
deriving DecidableEq, Repr

/-- The printable characters that have no place in a part. -/
def Part.excluded : Part → List Char
  | .free => []
  | .fragment => [' ', '\x22', '<', '>', '\x60']
  | .query => [' ', '\x22', '#', '<', '>']
  | .knownQuery => [' ', '\x22', '#', '<', '>', '\x27']
  | .segment => [' ', '\x22', '<', '>', '\x60', '#', '?', '\x7b', '\x7d']
  | .user =>
    [' ', '\x22', '<', '>', '\x60', '#', '?', '\x7b', '\x7d', '/', ':', ';', '=', '@', '[', '\\',
      ']', '^', '|']

def Part.escapes (p : Part) (c : Char) : Bool :=
  c.toNat < 0x20 || 0x7F ≤ c.toNat || p.excluded.contains c

/-! ## Writing -/

def hexDigit (n : Nat) : Char :=
  if n < 10 then Char.ofNat (48 + n) else Char.ofNat (55 + n)

def escapeByte (b : UInt8) : List Char :=
  ['%', hexDigit (b.toNat / 16), hexDigit (b.toNat % 16)]

def encodeChar (p : Part) (c : Char) : List Char :=
  if p.escapes c then (Utf8.ofText (String.singleton c)).flatMap escapeByte else [c]

def encode (p : Part) (cs : List Char) : List Char :=
  cs.flatMap (encodeChar p)

@[simp] theorem encode_nil (p : Part) : encode p [] = [] := rfl

@[simp] theorem encode_cons (p : Part) (c : Char) (cs : List Char) :
    encode p (c :: cs) = encodeChar p c ++ encode p cs := rfl

/-! ## Reading -/

def hexValue? (c : Char) : Option Nat :=
  if c.isDigit then some (c.toNat - 48)
  else if 'a' ≤ c ∧ c ≤ 'f' then some (c.toNat - 87)
  else if 'A' ≤ c ∧ c ≤ 'F' then some (c.toNat - 55)
  else none

/-- The bytes that a text stands for; a percent sign without two digits stands for itself. -/
def decode : List Char → List UInt8
  | '%' :: a :: b :: cs =>
    match hexValue? a, hexValue? b with
    | some x, some y => (x * 16 + y).toUInt8 :: decode cs
    | _, _ => Utf8.ofText "%" ++ decode (a :: b :: cs)
  | c :: cs => Utf8.ofText (String.singleton c) ++ decode cs
  | [] => []

end Percent
end Server
end Neatness
