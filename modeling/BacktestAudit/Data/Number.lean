import BacktestAudit.Data.Value
import BacktestAudit.Decimal.Extended
import BacktestAudit.Decimal.Notation
import BacktestAudit.Decimal.Shortest
import BacktestAudit.Text.Blank
import BacktestAudit.Text.Digit

/-!
Numbers among plain data: truth values count as zero and one, integers are of any size, and numbers
of different kinds are compared exactly. A number may also be given as text.
-/
namespace BacktestAudit.Data
open BacktestAudit.Decimal BacktestAudit.Text

inductive Number where
  | truth (b : Bool)
  | int (n : Int)
  | float (x : Float)

namespace Number

def toExtended : Number → Extended
  | truth b => .ofInt (if b then 1 else 0)
  | int n => .ofInt n
  | float x => .ofFloat x

def lt (a b : Number) : Bool := a.toExtended.lt b.toExtended

def le (a b : Number) : Bool := a.toExtended.le b.toExtended

theorem int_lt_int (m n : Int) : (int m).lt (int n) = decide (m < n) := by
  simp [lt, toExtended, Extended.ofInt, Extended.lt]

theorem int_le_int (m n : Int) : (int m).le (int n) = decide (m ≤ n) := by
  rw [Bool.eq_iff_iff]
  simp only [le, toExtended, Extended.ofInt, Extended.le, Extended.lt, Extended.same,
    Bool.or_eq_true, decide_eq_true_eq, beq_iff_eq]
  omega

/-- The nearest double; none for an integer beyond the range of doubles. -/
def toFloat? : Number → Option Float
  | truth b => some (Binary64.ofInt (if b then 1 else 0))
  | int n => if Binary64.intFits n then some (Binary64.ofInt n) else none
  | float x => some x

def toInt? : Number → Option Int
  | truth b => some (if b then 1 else 0)
  | int n => some n
  | float _ => none

def toValue : Number → Value
  | truth b => .bool b
  | int n => .int n
  | float x => .float x

def display : Number → String
  | truth b => if b then "True" else "False"
  | int n => toString n
  | float x => shortest x

end Number

def Value.number? : Value → Option Number
  | .bool b => some (.truth b)
  | .int n => some (.int n)
  | .float x => some (.float x)
  | _ => none

/-! ## Numbers as text -/

/-- Blanks around a number: those of ASCII without its separators, and all others. -/
def isNumberBlank (c : Char) : Bool :=
  if c.toNat < 128 then (9 ≤ c.toNat && c.toNat ≤ 13) || c = ' ' else isBlank c

/-- The characters of a number without the blanks around it, with digits of all scripts as ASCII
ones. -/
def numberChars (s : String) : List Char :=
  let cs := s.toList.dropWhile isNumberBlank
  (cs.reverse.dropWhile isNumberBlank).reverse.map fun c =>
    match digit? c with
    | some d => Char.ofNat ('0'.toNat + d)
    | none => c

/-- Digits without the underscores between them; nothing when an underscore stands elsewhere. -/
def withoutUnderscores? : List Char → Option (List Char)
  | [] => some []
  | ['_'] => none
  | [c] => some [c]
  | c :: '_' :: rest =>
    match rest with
    | d :: _ => if c.isDigit && d.isDigit then (withoutUnderscores? rest).map (c :: ·) else none
    | [] => none
  | c :: rest => if c = '_' then none else (withoutUnderscores? rest).map (c :: ·)

def signed (cs : List Char) : Bool × List Char :=
  match cs with
  | '-' :: rest => (true, rest)
  | '+' :: rest => (false, rest)
  | _ => (false, cs)

def readInt? (s : String) : Option Int := do
  let (negative, body) := signed (numberChars s)
  let digits ← withoutUnderscores? body
  if digits.isEmpty || !digits.all Char.isDigit || maxDecimalDigits < digits.length then none
  else
    let n : Int := valueIn 10 digits
    return if negative then -n else n

/-- Whether characters are digits, a point among them, and an exponent. -/
def isDecimal (cs : List Char) : Bool :=
  let whole := cs.takeWhile Char.isDigit
  let rest := cs.drop whole.length
  let (places, rest) := match rest with
    | '.' :: more => (more.takeWhile Char.isDigit, more.dropWhile Char.isDigit)
    | _ => ([], rest)
  let exponentIsFine := match rest with
    | [] => true
    | e :: more =>
      let digits := (signed more).2
      (e = 'e' || e = 'E') && !digits.isEmpty && digits.all Char.isDigit
  (!whole.isEmpty || !places.isEmpty) && exponentIsFine

def readFloat? (s : String) : Option Float := do
  let (negative, body) := signed (← withoutUnderscores? (numberChars s))
  let word := String.ofList (body.map Char.toLower)
  if word = "inf" || word = "infinity" then return Binary64.infinity negative
  else if word = "nan" then return Binary64.notNumber
  else if isDecimal body then return floatOf negative body
  else none

end BacktestAudit.Data
