import BacktestAudit.Decimal.Extended
import BacktestAudit.Decimal.Notation

/-!
Values that a program can write down: constants and the displays built from them.
-/
namespace BacktestAudit.Syntax
open BacktestAudit.Decimal

inductive Literal where
  | none
  | ellipsis
  | bool (b : Bool)
  | int (n : Int)
  | float (x : Float)
  | complex (re im : Float)
  | str (s : String)
  | bytes (bs : List UInt8)
  | tuple (elements : List Literal)
  | list (elements : List Literal)
  | set (elements : List Literal)
  | dict (entries : List (Literal × Literal))
  deriving Inhabited

namespace Literal

def int? : Literal → Option Int
  | .int n => some n
  | _ => Option.none

def str? : Literal → Option String
  | .str s => some s
  | _ => Option.none

/-! ## Equality of keys -/

/-- The real and imaginary part of a number; truth values count as zero and one. -/
def parts? : Literal → Option (Extended × Extended)
  | .bool b => some (.ratio (if b then 1 else 0) 1, .ratio 0 1)
  | .int n => some (.ratio n 1, .ratio 0 1)
  | .float x => some (.ofFloat x, .ratio 0 1)
  | .complex re im => some (.ofFloat re, .ofFloat im)
  | _ => Option.none

mutual

/-- Whether two keys are equal. Numbers are equal when their values are. -/
def same : Literal → Literal → Bool
  | .none, .none => true
  | .ellipsis, .ellipsis => true
  | .str a, .str b => a == b
  | .bytes a, .bytes b => a == b
  | .tuple as, .tuple bs => sameAll as bs
  | a, b =>
    match parts? a, parts? b with
    | some (r, i), some (s, j) => r.same s && i.same j
    | _, _ => false

def sameAll : List Literal → List Literal → Bool
  | [], [] => true
  | a :: as, b :: bs => same a b && sameAll as bs
  | _, _ => false

end

mutual

def isKey : Literal → Bool
  | .list _ | .set _ | .dict _ => false
  | .tuple es => areKeys es
  | _ => true

def areKeys : List Literal → Bool
  | [] => true
  | e :: es => isKey e && areKeys es

end

def insertMember (members : List Literal) (e : Literal) : List Literal :=
  if members.any (same · e) then members else members ++ [e]

def insertEntry : List (Literal × Literal) → Literal → Literal → List (Literal × Literal)
  | [], k, v => [(k, v)]
  | (k, w) :: rest, key, v =>
    if same k key then (k, v) :: rest else (k, w) :: insertEntry rest key v

end Literal

/-! ## Numbers as written -/

namespace Numeral

/-- The value of a number as written; nothing when it has too many digits. -/
def value? (text : String) : Option Literal :=
  let cs := text.toList.filter (· ≠ '_')
  match cs with
  | '0' :: b :: digits =>
    let b := b.toLower
    if b = 'x' then some (.int (valueIn 16 digits))
    else if b = 'o' then some (.int (valueIn 8 digits))
    else if b = 'b' then some (.int (valueIn 2 digits))
    else other cs
  | _ => other cs
where
  other (cs : List Char) : Option Literal :=
    let last := (cs.getLastD ' ').toLower
    if last = 'j' then some (.complex 0 (floatOf false cs.dropLast))
    else if cs.all Char.isDigit then
      if maxDecimalDigits < cs.length then none
      else some (.int (valueIn 10 cs))
    else some (.float (floatOf false cs))

end Numeral
end BacktestAudit.Syntax
