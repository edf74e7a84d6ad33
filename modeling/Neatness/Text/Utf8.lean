/-!
# Bytes as text

Documents and file names arrive as bytes.  `toText?` is the text that bytes stand for when they are
UTF-8; `toShown` always gives something to show, with the replacement character for every stretch
of bytes that starts a character and cannot end it.
-/

namespace Neatness
namespace Utf8

def ofText (s : String) : List UInt8 :=
  s.toUTF8.data.toList

def toText? (bytes : List UInt8) : Option String :=
  String.fromUTF8? ⟨⟨bytes⟩⟩

/-- How many bytes follow a first byte, and the range of the one right behind it; `none` when no
character starts so. -/
def tail? (b : UInt8) : Option (Nat × UInt8 × UInt8) :=
  if b < 0x80 then some (0, 0x80, 0xBF)
  else if b < 0xC2 then none
  else if b < 0xE0 then some (1, 0x80, 0xBF)
  else if b = 0xE0 then some (2, 0xA0, 0xBF)
  else if b = 0xED then some (2, 0x80, 0x9F)
  else if b < 0xF0 then some (2, 0x80, 0xBF)
  else if b = 0xF0 then some (3, 0x90, 0xBF)
  else if b < 0xF4 then some (3, 0x80, 0xBF)
  else if b = 0xF4 then some (3, 0x80, 0x8F)
  else none

/-- The bits that a first byte contributes. -/
def leadBits (b : UInt8) (following : Nat) : Nat :=
  match following with
  | 0 => b.toNat
  | 1 => b.toNat % 0x20
  | 2 => b.toNat % 0x10
  | _ => b.toNat % 0x08

/-- The characters of some bytes, `none` for every stretch that is none.  `pending` is a character
under way: its bits so far, the bytes still owed, and the range of the next one. -/
def charsFrom : (pending : Option (Nat × Nat × UInt8 × UInt8)) → List UInt8 →
    List (Option Char)
  | none, [] => []
  | some _, [] => [none]
  | pending, b :: bs =>
    let fresh (lead : List (Option Char)) : List (Option Char) :=
      match tail? b with
      | none => lead ++ none :: charsFrom none bs
      | some (0, _, _) => lead ++ some (Char.ofNat b.toNat) :: charsFrom none bs
      | some (n + 1, low, high) =>
        lead ++ charsFrom (some (leadBits b (n + 1), n + 1, low, high)) bs
    match pending with
    | none => fresh []
    | some (bits, owed, low, high) =>
      if low ≤ b && b ≤ high then
        let bits := bits * 0x40 + b.toNat % 0x40
        if owed ≤ 1 then some (Char.ofNat bits) :: charsFrom none bs
        else charsFrom (some (bits, owed - 1, 0x80, 0xBF)) bs
      else fresh [none]

/-- Something to show for any bytes. -/
def toShown (bytes : List UInt8) : String :=
  match toText? bytes with
  | some s => s
  | none => String.ofList ((charsFrom none bytes).map fun c => c.getD '\ufffd')

end Utf8
end Neatness
