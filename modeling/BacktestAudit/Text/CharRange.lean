/-!
Sets of characters written as ranges of code points, the form in which character properties are
published.
-/
namespace BacktestAudit.Text

/-- The code points from `first` to `last`, both included. -/
structure CharRange where
  first : Nat
  last : Nat

namespace CharRange

def contains (r : CharRange) (c : Char) : Bool :=
  r.first ≤ c.toNat && c.toNat ≤ r.last

theorem contains_iff (r : CharRange) (c : Char) :
    r.contains c = true ↔ r.first ≤ c.toNat ∧ c.toNat ≤ r.last := by
  simp [contains]

def memberOf (table : List CharRange) (c : Char) : Bool :=
  table.any (·.contains c)

theorem member_of_iff (table : List CharRange) (c : Char) :
    memberOf table c = true ↔ ∃ r ∈ table, r.first ≤ c.toNat ∧ c.toNat ≤ r.last := by
  simp [memberOf, List.any_eq_true, contains_iff]

/-- Reads a table written as a flat list of first and last code points. -/
def pairs : List Nat → List CharRange
  | first :: last :: rest => ⟨first, last⟩ :: pairs rest
  | _ => []

end CharRange
end BacktestAudit.Text
