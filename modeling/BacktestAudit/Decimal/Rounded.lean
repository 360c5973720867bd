import BacktestAudit.Decimal.Binary64

/-!
Doubles rounded to a number of decimal digits. The exact value is rounded once; a half goes to the
even digit.
-/
namespace BacktestAudit.Decimal

def paddedDigits (width n : Nat) : String :=
  let ds := Nat.toDigits 10 n
  String.ofList (List.replicate (width - ds.length) '0' ++ ds)

def timesPower (num den : Nat) (p : Int) : Nat × Nat :=
  if 0 ≤ p then (num * powerOfTen p.toNat, den) else (num, den * powerOfTen (-p).toNat)

/-- The power of ten of the first digit of a positive ratio. -/
def leadingPower (num den : Nat) : Int :=
  let ds (n : Nat) : Int := (Nat.toDigits 10 n).length
  let guess := ds num - ds den
  let (a, b) := timesPower num den (-guess)
  if b ≤ a then guess else guess - 1

/-- A positive ratio as `count` significant digits (at least one) and the power of ten of the first
of them. -/
def significant (count num den : Nat) : Nat × Int :=
  let p := leadingPower num den
  let (a, b) := timesPower num den (count - 1 - p)
  let n := roundDiv a b
  if n = powerOfTen count then (powerOfTen (count - 1), p + 1) else (n, p)

def specialText (negative : Bool) : String := if negative then "-inf" else "inf"

def signText (negative : Bool) : String := if negative then "-" else ""

/-- The exponent of scientific notation: a sign and at least two digits. -/
def exponentText (p : Int) : String :=
  (if p < 0 then "e-" else "e+") ++ paddedDigits 2 p.natAbs

def pointAfterFirst (digits : String) : String :=
  match digits.toList with
  | d :: [] => String.singleton d
  | d :: rest => String.singleton d ++ "." ++ String.ofList rest
  | [] => ""

def scientific (places : Nat) (x : Float) : String :=
  match Binary64.ofFloat x with
  | .nan => "nan"
  | .infinite negative => specialText negative
  | .finite negative m e =>
    if m = 0 then
      signText negative ++ pointAfterFirst (paddedDigits (places + 1) 0) ++ exponentText 0
    else
      let (num, den) := Binary64.scaled m e
      let (n, p) := significant (places + 1) num den
      signText negative ++ pointAfterFirst (paddedDigits (places + 1) n) ++ exponentText p

/-- `n / 10 ^ places` in positional notation. -/
def pointBefore (places n : Nat) : String :=
  if places = 0 then toString n
  else
    toString (n / powerOfTen places) ++ "." ++ paddedDigits places (n % powerOfTen places)

def fixed (places : Nat) (x : Float) : String :=
  match Binary64.ofFloat x with
  | .nan => "nan"
  | .infinite negative => specialText negative
  | .finite negative m e =>
    let (num, den) := Binary64.scaled m e
    signText negative ++ pointBefore places (roundDiv (num * powerOfTen places) den)

/-- Text without the zeros behind a point, and without a point that nothing is behind. -/
def dropTrailingZeros (s : String) : String :=
  if s.contains '.' then
    let kept := s.toList.reverse.dropWhile (· = '0')
    String.ofList (if kept.head? = some '.' then kept.drop 1 else kept).reverse
  else s

/-- At most `digits` significant digits, at least one: positional where the first of them is neither
far behind the point nor the last of them before it, and scientific otherwise. -/
def general (digits : Nat) (x : Float) : String :=
  match Binary64.ofFloat x with
  | .nan => "nan"
  | .infinite negative => specialText negative
  | .finite negative m e =>
    if m = 0 then signText negative ++ "0"
    else
      let (num, den) := Binary64.scaled m e
      let (n, p) := significant digits num den
      if -4 ≤ p && p < digits then
        dropTrailingZeros (fixed (digits - 1 - p).toNat x)
      else
        signText negative ++ dropTrailingZeros (pointAfterFirst (paddedDigits digits n)) ++
          exponentText p

def percent (places : Nat) (x : Float) : String := fixed places (x * 100) ++ "%"

end BacktestAudit.Decimal
