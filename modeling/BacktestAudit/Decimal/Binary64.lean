/-!
Doubles as exact numbers. A finite double is `m · 2 ^ q`; a ratio of natural numbers becomes the
nearest double, and of two equally near ones the even.
-/
namespace BacktestAudit.Decimal

/-- The nearest integer to `num / den`; a half goes to the even neighbour. -/
def roundDiv (num den : Nat) : Nat :=
  let q := num / den
  let r := num % den
  if 2 * r < den then q
  else if den < 2 * r then q + 1
  else if q % 2 = 0 then q else q + 1

theorem round_div_le (num den : Nat) : roundDiv num den ≤ num / den + 1 := by
  unfold roundDiv
  dsimp only
  split
  · omega
  · split
    · omega
    · split <;> omega

theorem le_round_div (num den : Nat) : num / den ≤ roundDiv num den := by
  unfold roundDiv
  dsimp only
  split
  · omega
  · split
    · omega
    · split <;> omega

theorem round_div_mul {den : Nat} (h : 0 < den) (q : Nat) : roundDiv (q * den) den = q := by
  unfold roundDiv
  simp [Nat.mul_div_cancel _ h, h]

def powerOfTen (n : Nat) : Nat := Nat.pow 10 n

inductive Binary64 where
  | finite (negative : Bool) (mantissa : Nat) (exponent : Int)
  | infinite (negative : Bool)
  | nan
  deriving DecidableEq, Repr

namespace Binary64

def ofFloat (x : Float) : Binary64 :=
  let bits : Nat := x.toBits.toNat
  let negative := bits >>> 63 = 1
  let field : Nat := (bits >>> 52) % 2048
  let fraction : Nat := bits % (1 <<< 52)
  if field = 2047 then if fraction = 0 then .infinite negative else .nan
  else if field = 0 then .finite negative fraction (-1074)
  else .finite negative ((1 <<< 52) + fraction) ((field : Int) - 1075)

def signBit (negative : Bool) : Nat := if negative then 1 <<< 63 else 0

def infinity (negative : Bool) : Float :=
  Float.ofBits (UInt64.ofNat (signBit negative + (2047 <<< 52)))

def notNumber : Float := Float.ofBits (UInt64.ofNat ((2047 <<< 52) + (1 <<< 51)))

/-- The bits of a positive double below the sign: at most 53 bits of mantissa, times `2 ^ exponent`
with an exponent of at least -1074. -/
def magnitudeBits (mantissa : Nat) (exponent : Int) : Nat :=
  let (m, e) := if mantissa = 1 <<< 53 then (1 <<< 52, exponent + 1) else (mantissa, exponent)
  if m < 1 <<< 52 then m
  else if 971 < e then 2047 <<< 52
  else ((e + 1075).toNat <<< 52) + (m - (1 <<< 52))

def scaled (n : Nat) (e : Int) : Nat × Nat :=
  if 0 ≤ e then (n <<< e.toNat, 1) else (n, 1 <<< (-e).toNat)

def nearest (negative : Bool) (num den : Nat) : Float :=
  let magnitude :=
    if num = 0 || den = 0 then 0
    else
      let guess : Int := (num.log2 : Int) - den.log2 - 53
      let low := max guess (-1074)
      let quotientAt (e : Int) (divide : Nat → Nat → Nat) : Nat :=
        if 0 ≤ e then divide num (den <<< e.toNat) else divide (num <<< (-e).toNat) den
      let exponent := if 1 <<< 53 ≤ quotientAt low (· / ·) then low + 1 else low
      magnitudeBits (quotientAt exponent roundDiv) exponent
  Float.ofBits (UInt64.ofNat (signBit negative + magnitude))

/-- The nearest double to `digits · 10 ^ exponent`. Powers beyond the range of doubles are not
computed. -/
def ofDecimal (negative : Bool) (digits : Nat) (exponent : Int) : Float :=
  let size : Int := (Nat.toDigits 10 digits).length
  if digits = 0 || exponent + size < -400 then nearest negative 0 1
  else if 400 < exponent + size then
    infinity negative
  else if 0 ≤ exponent then nearest negative (digits * powerOfTen exponent.toNat) 1
  else nearest negative digits (powerOfTen (-exponent).toNat)

def ofInt (n : Int) : Float := nearest (n < 0) n.natAbs 1

/-- The exact value of a finite double as numerator and denominator. -/
def ratio? (x : Float) : Option (Int × Nat) :=
  match ofFloat x with
  | .finite negative m e =>
    let (num, den) := scaled m e
    some (if negative then -(num : Int) else num, den)
  | _ => none

def isFinite (x : Float) : Bool :=
  match ofFloat x with
  | .finite .. => true
  | _ => false

def intFits (n : Int) : Bool := isFinite (ofInt n)

end Binary64
end BacktestAudit.Decimal
