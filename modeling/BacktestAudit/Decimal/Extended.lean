import BacktestAudit.Decimal.Binary64

/-!
Real numbers with infinities and a value that is no number, compared exactly. They hold what
integers and doubles stand for, so that numbers of different kinds can be compared.
-/
namespace BacktestAudit.Decimal

inductive Extended where
  /-- A fraction with a positive denominator. -/
  | ratio (num : Int) (den : Nat)
  | infinite (negative : Bool)
  | nan
  deriving DecidableEq, Repr

namespace Extended

def ofInt (n : Int) : Extended := .ratio n 1

def ofFloat (x : Float) : Extended :=
  match Binary64.ofFloat x with
  | .finite negative m e =>
    let (num, den) := Binary64.scaled m e
    .ratio (if negative then -(num : Int) else num) den
  | .infinite negative => .infinite negative
  | .nan => .nan

def same : Extended → Extended → Bool
  | .ratio a b, .ratio c d => a * d == c * b
  | .infinite a, .infinite b => a == b
  | _, _ => false

def lt : Extended → Extended → Bool
  | .ratio a b, .ratio c d => a * d < c * b
  | .ratio .., .infinite negative => !negative
  | .infinite negative, .ratio .. => negative
  | .infinite a, .infinite b => a && !b
  | _, _ => false

def le (a b : Extended) : Bool := lt a b || same a b

theorem nan_lt (a : Extended) : lt .nan a = false := by cases a <;> rfl

theorem lt_nan (a : Extended) : lt a .nan = false := by cases a <;> rfl

theorem same_comm (a b : Extended) : same a b = same b a := by
  cases a <;> cases b <;> simp only [same]
  · exact Bool.beq_comm
  · exact Bool.beq_comm

theorem lt_irrefl (a : Extended) : lt a a = false := by
  cases a with
  | ratio a b => simp [lt]
  | infinite n => cases n <;> rfl
  | nan => rfl

theorem lt_infinite {a b : Extended} (h : lt a b = true) : lt a (.infinite false) = true := by
  cases a <;> cases b <;> simp_all [lt]

theorem lt_or_same_or_gt {a b : Extended} (ha : a ≠ .nan) (hb : b ≠ .nan) :
    lt a b = true ∨ same a b = true ∨ lt b a = true := by
  cases a with
  | nan => exact absurd rfl ha
  | infinite m =>
    cases b with
    | nan => exact absurd rfl hb
    | infinite n => cases m <;> cases n <;> simp [lt, same]
    | ratio c d => cases m <;> simp [lt]
  | ratio a b' =>
    cases b with
    | nan => exact absurd rfl hb
    | infinite n => cases n <;> simp [lt]
    | ratio c d =>
      simp only [lt, same, decide_eq_true_eq, beq_iff_eq]
      omega

theorem lt_asymm {a b : Extended} (h : lt a b = true) : le b a = false := by
  cases a <;> cases b <;> simp_all [lt, le, same] <;> omega

theorem le_iff_not_lt {a b : Extended} (ha : a ≠ .nan) (hb : b ≠ .nan) :
    le b a = true ↔ lt a b = false := by
  constructor
  · intro h
    cases hlt : lt a b with
    | false => rfl
    | true => rw [lt_asymm hlt] at h; cases h
  · intro h
    rcases lt_or_same_or_gt ha hb with hlt | hsame | hgt
    · rw [hlt] at h; cases h
    · rw [le, same_comm, hsame, Bool.or_true]
    · rw [le, hgt, Bool.true_or]

theorem ne_nan_of_le {a b : Extended} (h : le a b = true) : a ≠ .nan ∧ b ≠ .nan := by
  cases a <;> cases b <;> simp_all [le, lt, same]

end Extended
end BacktestAudit.Decimal
