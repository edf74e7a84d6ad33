/-!
# Scores

A document starts with a hundred points, and every problem takes some away until none are left.
-/

namespace Neatness
namespace Score

/-- The points of a document without problems. -/
def perfect : UInt8 := 100

/-- Several numbers of points together. -/
def total : List UInt8 → Nat
  | [] => 0
  | d :: ds => d.toNat + total ds

/-- What is left after the deductions. -/
def ofDeductions (deductions : List UInt8) : UInt8 :=
  (100 - total deductions).toUInt8

def label (score : UInt8) : String :=
  if score = 100 then "Ready to submit"
  else if 75 ≤ score ∧ score ≤ 99 then "Nearly there"
  else if 50 ≤ score ∧ score ≤ 74 then "Needs cleanup"
  else "Not submittable"

@[simp] theorem total_nil : total [] = 0 := rfl

@[simp] theorem total_cons (d : UInt8) (ds : List UInt8) :
    total (d :: ds) = d.toNat + total ds := rfl

/-- The points left, as a number: a hundred less the sum of the deductions, and never below
zero. -/
theorem toNat_ofDeductions (deductions : List UInt8) :
    (ofDeductions deductions).toNat = 100 - total deductions := by
  have h : 100 - total deductions < 256 := by omega
  simpa [ofDeductions, UInt8.toNat_ofNat'] using Nat.mod_eq_of_lt h

end Score
end Neatness
