import BacktestAudit.Decimal.Rounded

/-!
The fewest digits that read back as the same double, and of those the nearest to it.
-/
namespace BacktestAudit.Decimal

/-- The numbers that round to a double lie between two bounds; `closed` tells whether the bounds do
so too. All three numbers are multiples of `1 / den`. -/
structure Interval where
  low : Nat
  value : Nat
  high : Nat
  den : Nat
  closed : Bool

namespace Interval

/-- The numbers that round to `m · 2 ^ e`. Below a power of two the doubles lie twice as close. -/
def ofDouble (m : Nat) (e : Int) : Interval :=
  let below := if m = 1 <<< 52 && -1074 < e then 1 else 2
  let at_ (n : Nat) : Nat × Nat := Binary64.scaled n (e - 2)
  { low := (at_ (4 * m - below)).1, value := (at_ (4 * m)).1, high := (at_ (4 * m + 2)).1
    den := (at_ 1).2, closed := m % 2 = 0 }

def contains (i : Interval) (num den : Nat) : Bool :=
  let n := num * i.den
  if i.closed then i.low * den ≤ n && n ≤ i.high * den
  else i.low * den < n && n < i.high * den

/-- The nearest number inside that has `count` digits, when there is one. The grid of such numbers
is taken at the power of ten of the first digit. -/
def onGrid? (i : Interval) (count : Nat) (p : Int) : Option Nat :=
  let (num, den) := timesPower i.value i.den (count - 1 - p)
  let down := num / den
  let inside (n : Nat) : Bool :=
    let (a, b) := timesPower n 1 (p - (count - 1))
    i.contains a b
  let nearest := roundDiv num den
  let other := if nearest = down then down + 1 else down
  if inside nearest then some nearest
  else if inside other then some other
  else none

/-- The fewest digits, from `count` on, with the power of ten of the first of them. -/
def fewest (i : Interval) (p : Int) : Nat → Nat → Nat × Int
  | 0, count => ((i.onGrid? count p).getD 0, p)
  | fuel + 1, count =>
    match i.onGrid? count p with
    | some n => if n = powerOfTen count then (1, p + 1) else (n, p)
    | none => fewest i p fuel (count + 1)

end Interval

structure ShortestFormat where
  /-- Powers of ten of the first digit from here on are written with a point in place. -/
  positionalFrom : Int
  /-- Powers of ten from here on are written with an exponent. -/
  positionalBefore : Int

/-- A point in place from a ten-thousandth up to ten quadrillions. -/
def standardFormat : ShortestFormat := ⟨-4, 16⟩

/-- Digits whose first stands for a power of ten that is not negative, with at least one digit on
each side of the point. -/
def pointWithin (digits : List Char) (p : Nat) : String :=
  let whole := digits.take (p + 1)
  let padded := whole ++ List.replicate (p + 1 - whole.length) '0'
  let rest := digits.drop (p + 1)
  String.ofList padded ++ "." ++ (if rest.isEmpty then "0" else String.ofList rest)

def digitsText (format : ShortestFormat) (digits : List Char) (p : Int) : String :=
  if format.positionalFrom ≤ p && p < format.positionalBefore then
    if 0 ≤ p then pointWithin digits p.toNat
    else "0." ++ String.ofList (List.replicate (-p - 1).toNat '0' ++ digits)
  else pointAfterFirst (String.ofList digits) ++ exponentText p

/-- The shortest text that reads back as the double. -/
def shortest (x : Float) : String :=
  match Binary64.ofFloat x with
  | .nan => "nan"
  | .infinite negative => specialText negative
  | .finite negative m e =>
    if m = 0 then signText negative ++ "0.0"
    else
      let interval := Interval.ofDouble m e
      let (n, p) := interval.fewest (leadingPower interval.value interval.den) 17 1
      signText negative ++ digitsText standardFormat (Nat.toDigits 10 n) p

end BacktestAudit.Decimal
