import Neatness.Json.Value

/-!
# Records in JSON

A record is written as an object, or as the list of its fields in their order.  In an object the
members may stand in any order and members with other names are passed over, unless the record is
strict; a field must not be repeated.  `slots` brings both spellings to one list with a slot for
each field, which is empty when the field was left out.
-/

namespace Neatness
namespace Json

/-- Where a field may be left out. -/
inductive Absence where
  | never
  /-- In an object, but not in a list. -/
  | inObject
  /-- In an object, and at the end of a list. -/
  | anywhere
deriving DecidableEq, Repr

/-- A field of a record. -/
structure Field where
  name : String
  absence : Absence
deriving DecidableEq, Repr

/-- The members of an object under their names, if all names denote text. -/
def named? : List (Option String × Json) → Option (List (String × Json))
  | [] => some []
  | (none, _) :: _ => none
  | (some name, v) :: ms => (named? ms).map ((name, v) :: ·)

def Field.slot? (f : Field) (members : List (String × Json)) : Option (Option Json) :=
  match members.filter fun m => m.1 == f.name with
  | [] => if f.absence = .never then none else some none
  | [m] => some (some m.2)
  | _ => none

/-- The slots of a record written as a list. -/
def listSlots? : List Field → List Json → Option (List (Option Json))
  | [], [] => some []
  | [], _ :: _ => none
  | f :: fs, [] => if f.absence = .anywhere then (listSlots? fs []).map (none :: ·) else none
  | _ :: fs, v :: vs => (listSlots? fs vs).map (some v :: ·)

/-- The slots of a record; a strict one has no members but its fields. -/
def slots? (fields : List Field) (strict : Bool) : Json → Option (List (Option Json))
  | .obj members => do
    let members ← named? members
    if strict && members.any (fun m => fields.all fun f => f.name != m.1) then none
    else fields.mapM fun f => f.slot? members
  | .arr items => listSlots? fields items
  | _ => none

/-! ## What a slot holds -/

def text? : Json → Option String
  | .str s => s
  | _ => none

def flag? : Json → Option Bool
  | .bool b => some b
  | _ => none

/-- A whole number below a limit. -/
def natBelow? (limit : Nat) : Json → Option Nat
  | .num n => n.toNat?.filter (· < limit)
  | _ => none

def byte? (v : Json) : Option UInt8 :=
  (natBelow? 256 v).map Nat.toUInt8

/-- One of several names: as a text, or as the only member of an object with the value null. -/
def variant? : Json → Option String
  | .str s => s
  | .obj [(name, .null)] => name
  | _ => none

/-- One of several names in a part of a larger record: an empty object may stand for the null. -/
def innerVariant? : Json → Option String
  | .obj [(name, .obj [])] => name
  | v => v.variant?

def listOf? {α : Type} (read? : Json → Option α) : Json → Option (List α)
  | .arr items => items.mapM read?
  | _ => none

/-- The slot of a field that has to be there. -/
def must {α : Type} (read? : Json → Option α) : Option Json → Option α
  | some v => read? v
  | none => none

/-- The slot of a field that may be null or left out. -/
def may {α : Type} (read? : Json → Option α) : Option Json → Option (Option α)
  | none => some none
  | some .null => some none
  | some v => (read? v).map some

/-- The slot of a field that has a default when it is left out. -/
def orElse {α : Type} (default : α) (read? : Json → Option α) : Option Json → Option α
  | none => some default
  | some v => read? v

end Json
end Neatness
