import Neatness.Json.Number

/-!
# JSON values

The tree of a JSON text.  A string is `none` when one of its escapes is half of a surrogate pair, so
that it denotes no text, and a number keeps how it was written: a reader may refuse either.  The
members of an object keep their order and their repetitions; `asMap` is for readers who are handed
maps, in which a later member replaces an earlier one of the same name.
-/

namespace Neatness

/-- A JSON value. -/
inductive Json where
  | null
  | bool (value : Bool)
  | num (value : Json.Number)
  /-- A string, if it denotes text. -/
  | str (text : Option String)
  | arr (items : List Json)
  | obj (members : List (Option String × Json))
deriving Repr

namespace Json

/-! ## Building values -/

def text (s : String) : Json :=
  .str (some s)

def nat (n : Nat) : Json :=
  .num (.ofNat n)

/-- A whole number with a sign. -/
def int (n : Int) : Json :=
  .num (.ofInt n)

def record (members : List (String × Json)) : Json :=
  .obj (members.map fun (name, value) => (some name, value))

/-! ## Values that can be kept whole -/

mutual

/-- Every string of the value denotes text and every number has a value of double precision. -/
def isSound : Json → Bool
  | .null => true
  | .bool _ => true
  | .num n => n.isFinite
  | .str s => s.isSome
  | .arr items => areSound items
  | .obj members => membersSound members

def areSound : List Json → Bool
  | [] => true
  | v :: vs => isSound v && areSound vs

/-- All names and values of several members are sound. -/
def membersSound : List (Option String × Json) → Bool
  | [] => true
  | (name, v) :: ms => name.isSome && isSound v && membersSound ms

end

/-! ## Values with one member for each name -/

/-- The members that no later one of the same name replaces. -/
def lastMembers (members : List (Option String × Json)) : List (Option String × Json) :=
  match members with
  | [] => []
  | m :: ms => if ms.any (·.1 == m.1) then lastMembers ms else m :: lastMembers ms

mutual

/-- The value as a map keeps it: in every object the last member of a name counts. -/
def asMap : Json → Json
  | .arr items => .arr (itemsAsMap items)
  | .obj members => .obj (lastMembers (membersAsMap members))
  | v => v

def itemsAsMap : List Json → List Json
  | [] => []
  | v :: vs => asMap v :: itemsAsMap vs

def membersAsMap : List (Option String × Json) → List (Option String × Json)
  | [] => []
  | (name, v) :: ms => (name, asMap v) :: membersAsMap ms

end

/-- A look-up finds the member that came last. -/
theorem lookup_lastMembers (members : List (Option String × Json)) (name : Option String) :
    (lastMembers members).lookup name = members.reverse.lookup name := by
  induction members with
  | nil => rfl
  | cons m ms ih =>
      obtain ⟨own, v⟩ := m
      rw [lastMembers, List.reverse_cons, List.lookup_append]
      by_cases hlater : ∃ k ∈ ms, k.1 = own
      · -- Whoever looks for the name of this member finds a later one first.
        rw [if_pos (by simpa using hlater), ih]
        cases hfound : ms.reverse.lookup name with
        | some found => rfl
        | none =>
            obtain ⟨k, hk, hname⟩ := hlater
            have hother := List.lookup_eq_none_iff.1 hfound k (List.mem_reverse.2 hk)
            rw [hname] at hother
            rw [Option.none_or, List.lookup_cons, beq_false_of_ne (bne_iff_ne.1 hother)]
            rfl
      · rw [if_neg (by simpa using hlater), List.lookup_cons, List.lookup_cons, ih]
        cases hname : name == own with
        | false => simp
        | true =>
            have hnone : ms.reverse.lookup name = none := by
              rw [List.lookup_eq_none_iff]
              intro k hk
              rw [bne_iff_ne, eq_of_beq hname]
              exact fun heq => hlater ⟨k, List.mem_reverse.1 hk, heq.symm⟩
            simp [hnone]

end Json
end Neatness
