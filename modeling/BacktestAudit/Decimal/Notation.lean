import BacktestAudit.Decimal.Binary64

/-!
Numbers read from digits.
-/
namespace BacktestAudit.Decimal

/-- The value of a digit; letters count on from ten. -/
def digitValue (c : Char) : Nat :=
  if c.isDigit then c.toNat - '0'.toNat
  else if 'a' ≤ c then c.toNat - 'a'.toNat + 10
  else c.toNat - 'A'.toNat + 10

def valueIn (base : Nat) (digits : List Char) : Nat :=
  digits.foldl (fun acc d => acc * base + digitValue d) 0

/-- Integers in decimal digits may not be longer than this. -/
def maxDecimalDigits : Nat := 4300

/-- Splits `123.45e-6` into its digits and the power of ten that they are scaled by. -/
def scientificParts (cs : List Char) : Nat × Int :=
  let whole := cs.takeWhile Char.isDigit
  let rest := cs.drop whole.length
  let (places, rest) := match rest with
    | '.' :: more => (more.takeWhile Char.isDigit, more.dropWhile Char.isDigit)
    | _ => ([], rest)
  let exponent : Int := match rest with
    | _ :: '-' :: digits => -(valueIn 10 digits : Int)
    | _ :: '+' :: digits => valueIn 10 digits
    | _ :: digits => valueIn 10 digits
    | [] => 0
  (valueIn 10 (whole ++ places), exponent - places.length)

def floatOf (negative : Bool) (cs : List Char) : Float :=
  let (digits, exponent) := scientificParts cs
  Binary64.ofDecimal negative digits exponent

theorem value_in_append (base : Nat) (ds : List Char) (d : Char) :
    valueIn base (ds ++ [d]) = valueIn base ds * base + digitValue d := by
  simp [valueIn, List.foldl_append]

end BacktestAudit.Decimal
