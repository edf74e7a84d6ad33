/-!
# JSON numbers

A number keeps how it was written, because only plain digits are read as a whole number.  Any other
number stands for a value of double precision.  That value is worked out from as many leading
digits as fit into 64 bits and from a power of ten; both are rounded before they are multiplied, and
a product beyond the range is refused.
-/

namespace Neatness
namespace Json

/-- A number as written. -/
structure Number where
  negative : Bool := false
  whole : Nat
  fraction : List (Fin 10) := []
  exponent : Option Int := none
deriving DecidableEq, Repr

namespace Number

/-! ## Whole numbers -/

def ofNat (n : Nat) : Number :=
  { whole := n }

def ofInt (n : Int) : Number :=
  { negative := n < 0, whole := n.natAbs }

/-- Neither a point nor an exponent was written. -/
def isPlain (n : Number) : Bool :=
  n.fraction.isEmpty && n.exponent.isNone

/-- The value of a number in plain digits. -/
def toNat? (n : Number) : Option Nat :=
  if n.isPlain && !n.negative then some n.whole else none

@[simp] theorem toNat?_ofNat (n : Nat) : (ofNat n).toNat? = some n := rfl

/-! ## Double precision -/

/-- Least number that does not fit into 64 bits. -/
def wordLimit : Nat := 0x10000000000000000

/-- Leading digits, and the power of ten that they are multiplied with. -/
structure Leading where
  /-- The digits, as one number. -/
  digits : Nat
  exponent : Int
deriving DecidableEq, Repr

namespace Leading

/-- The leading digits of a whole number that fit into 64 bits, when it is multiplied with a power
of ten. -/
def ofNat (n exponent : Nat) : Leading :=
  if n < wordLimit then ⟨n, exponent⟩ else ofNat (n / 10) (exponent + 1)
termination_by n
decreasing_by
  have : wordLimit = 0x10000000000000000 := rfl
  omega

/-- More digits behind the point; from the first one on that does not fit they are left out. -/
def append (l : Leading) : List (Fin 10) → Leading
  | [] => l
  | d :: ds =>
    if l.digits * 10 + d.val < wordLimit then
      append ⟨l.digits * 10 + d.val, l.exponent - 1⟩ ds
    else l

end Leading

/-- The leading digits of a number, without its written exponent. -/
def leading (n : Number) : Leading :=
  (Leading.ofNat n.whole 0).append n.fraction

/-- A number rounded to 53 binary digits, a half to the even neighbour. -/
def round53 (n : Nat) : Nat :=
  let unit := Nat.pow 2 (n.log2 - 52)
  let low := n / unit
  let twice := 2 * (n % unit)
  if unit < twice || (twice == unit && low % 2 == 1) then (low + 1) * unit else low * unit

/-- Least number that is too large for double precision: from here on numbers round up to the next
power of two beyond the range. -/
def limit : Nat :=
  Nat.pow 2 1024 - Nat.pow 2 970

/-- Digits times a power of ten stay in the range of double precision; only powers of ten up to
308 are in it themselves. -/
def inRange (digits : Nat) : Int → Bool
  | .ofNat e => e ≤ 308 && round53 digits * round53 (Nat.pow 10 e) < limit
  | .negSucc _ => true

/-- A written exponent that needs more than 31 bits. -/
def isHuge (exponent : Int) : Bool :=
  0x80000000 ≤ exponent.natAbs

/-- The number has a value of double precision. -/
def isFinite (n : Number) : Bool :=
  let l := n.leading
  let e := n.exponent.getD 0
  l.digits == 0 || (if isHuge e then e < 0 else inRange l.digits (l.exponent + e))

end Number
end Json
end Neatness
