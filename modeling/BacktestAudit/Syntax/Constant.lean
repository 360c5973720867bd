import BacktestAudit.Syntax.Tree

/-!
Expressions that stand for a literal: constants, signed numbers, complex numbers written as a sum,
and displays of literals.
-/
namespace BacktestAudit.Syntax

/-- Why an expression has no literal value: it is not made of literals, or it adds an integer beyond
the range of doubles to an imaginary number. -/
inductive NotLiteral where
  | dynamic
  | outOfRange
  deriving DecidableEq, Repr

namespace Expr
open BacktestAudit.Decimal

/-- A number as written, truth values apart. -/
def number : Expr → Except NotLiteral Literal
  | .constant _ (.int n) => .ok (.int n)
  | .constant _ (.float x) => .ok (.float x)
  | .constant _ (.complex re im) => .ok (.complex re im)
  | _ => .error .dynamic

def negate : Literal → Literal
  | .int n => .int (-n)
  | .float x => .float (-x)
  | .complex re im => .complex (-re) (-im)
  | l => l

def signedNumber : Expr → Except NotLiteral Literal
  | .unary _ .plus e => number e
  | .unary _ .minus e => (number e).map negate
  | e => number e

def complexSum (op : BinaryOp) (left right : Literal) : Except NotLiteral Literal :=
  let sum (x re im : Float) : Literal :=
    if op = .add then .complex (x + re) (0 + im) else .complex (x - re) (0 - im)
  match left, right with
  | .int n, .complex re im =>
    if Binary64.intFits n then .ok (sum (Binary64.ofInt n) re im) else .error .outOfRange
  | .float x, .complex re im => .ok (sum x re im)
  | _, _ => .error .dynamic

abbrev Reading := Except NotLiteral Literal

/-- All values, unless one of them is missing; the first obstacle counts. -/
def allOf : List Reading → Except NotLiteral (List Literal)
  | [] => .ok []
  | r :: rs => do
    let v ← r
    return v :: (← allOf rs)

/-- The members of a set display; each has to be a possible member. -/
def members (acc : List Literal) : List Reading → Except NotLiteral (List Literal)
  | [] => .ok acc
  | r :: rs => do
    let v ← r
    if v.isKey then members (Literal.insertMember acc v) rs else throw .dynamic

/-- The entries of a dictionary display, key by key. -/
def entries (acc : List (Literal × Literal)) :
    List (Reading × Reading) → Except NotLiteral (List (Literal × Literal))
  | [] => .ok acc
  | (k, v) :: rest => do
    let key ← k
    let value ← v
    if key.isKey then entries (Literal.insertEntry acc key value) rest else throw .dynamic

mutual

def literal : Expr → Reading
  | .constant _ v => .ok v
  | .tuple _ es => (allOf (literals es)).map .tuple
  | .list _ es => (allOf (literals es)).map .list
  | .set _ es => (members [] (literals es)).map .set
  | .call _ (.name _ "set" _) [] => .ok (.set [])
  | .dict _ ks vs => (entries [] ((literals ks).zip (literals vs))).map .dict
  | .binary _ op l r =>
    if op = .other then .error .dynamic
    else do
      let left ← signedNumber l
      let right ← number r
      complexSum op left right
  | .unary e op operand => signedNumber (.unary e op operand)
  | _ => .error .dynamic

def literals : List Expr → List Reading
  | [] => []
  | e :: es => literal e :: literals es

end

def literal? (e : Expr) : Option Literal := e.literal.toOption

def leavesRange (e : Expr) : Bool :=
  match e.literal with
  | .error .outOfRange => true
  | _ => false

def textConstant? : Expr → Option String
  | .constant _ (.str s) => some s
  | _ => none

end Expr
end BacktestAudit.Syntax
