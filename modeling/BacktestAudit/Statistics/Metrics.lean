import BacktestAudit.Data.Display
import BacktestAudit.Error
import BacktestAudit.Statistics.Sample

/-!
Metrics of a backtest: checked field by field, so that what is accepted are finite numbers, counts
of at least one, and a rectangular table of variant returns.
-/
namespace BacktestAudit.Statistics
open BacktestAudit.Data BacktestAudit.Decimal

structure Metrics where
  /-- The returns of the selected strategy, in the order of time. -/
  returns : List Float
  sharpe : Float
  maxDrawdown : Float
  winRate : Float
  trialCount : Int
  variantCount : Int
  /-- The returns of all variants: a row for each time, a column for each variant. -/
  variantReturns : Option (List (List Float))
  totalReturn : Option Float

namespace Metrics

/-! ## Checks -/

def refuse (field reason : String) : Except Failure α :=
  .error (.error (.invalidMetrics field reason))

/-- Refuses a value that is not what is wanted. The refusal shows it; an integer in it may be too long
for that. -/
def unexpected (field wanted : String) (v : Value) : Except Failure α :=
  if v.isWritable then refuse field s!"expected {wanted}, got {v.shown}"
  else .error (.accident .wrongValue)

/-- The double that a value gives; text is read as one. -/
def double (field : String) (v : Value) : Except Failure Float :=
  match v with
  | .text s =>
    match readFloat? s with
    | some x => .ok x
    | none => unexpected field "a number" v
  | v =>
    match v.number? with
    | some n =>
      match n.toFloat? with
      | some x => .ok x
      | none => .error (.accident .outOfRange)
    | none => unexpected field "a number" v

def finite (field : String) (v : Value) : Except Failure Float := do
  let x ← double field v
  if Binary64.isFinite x then return x else refuse field "must be finite"

def wholeOf? (x : Float) : Option Int :=
  match Binary64.ratio? x with
  | some (num, den) => if num % den = 0 then some (num / den) else none
  | none => none

/-- The integer that a value gives; truth values give none. -/
def whole (field : String) (v : Value) : Except Failure Int :=
  match v with
  | .int n => if Binary64.intFits n then .ok n else .error (.accident .outOfRange)
  | .float x =>
    match wholeOf? x with
    | some n => .ok n
    | none => unexpected field "an integer" v
  | _ => unexpected field "an integer" v

def count (field : String) (v : Value) : Except Failure Int := do
  let n ← whole field v
  if n < 1 then refuse field "must be at least 1" else return n

/-- What a value runs through: items of a list, characters of a text, keys of a table. -/
def items (v : Value) : Except Failure (List Value) :=
  match v with
  | .list vs => .ok vs
  | .text s => .ok (s.toList.map fun c => .text (String.singleton c))
  | .table es => .ok (es.map fun e => .text e.1)
  | _ => .error (.accident .wrongKind)

def finiteItems (field : String) (v : Value) : Except Failure (List Float) := do
  (← items v).zipIdx.mapM fun (x, i) => finite s!"{field}[{i}]" x

/-- Rows of one length, with at least two columns. -/
def rectangular (field : String) (rows : List (List Float)) : Except Failure (List (List Float)) :=
  match rows with
  | [] => refuse field "needs at least 2 variant columns"
  | row :: rest =>
    if rest.any (·.length ≠ row.length) then refuse field "rows must have equal length"
    else if row.length < 2 then refuse field "needs at least 2 variant columns"
    else .ok rows

def variantTable (v : Value) : Except Failure (List (List Float)) := do
  let field := "variant_returns"
  let rows ← (← items v).zipIdx.mapM fun (row, t) => finiteItems s!"{field}[{t}]" row
  rectangular field rows

def isShare (x : Float) : Bool :=
  (Extended.ofInt 0).le (.ofFloat x) && (Extended.ofFloat x).le (.ofInt 1)

/-! ## Making metrics -/

def requiredFields : List String := ["returns", "sharpe", "max_drawdown", "win_rate"]

def fields : List String :=
  requiredFields ++ ["trial_count", "variant_count", "variant_returns", "total_return"]

/-- An optional field; nothing is given when it is absent or null. -/
def optional (entries : Entries Value) (field : String) (read : Value → Except Failure α) :
    Except Failure (Option α) :=
  match (Entries.get? entries field).getD .null with
  | .null => .ok none
  | v => some <$> read v

def get (entries : Entries Value) (field : String) : Value :=
  (Entries.get? entries field).getD .null

def countOf (entries : Entries Value) (field : String) : Except Failure Int :=
  count field ((Entries.get? entries field).getD (.int 1))

def ofFields (entries : Entries Value) : Except Failure Metrics := do
  let returns ← finiteItems "returns" (get entries "returns")
  let sharpe ← finite "sharpe" (get entries "sharpe")
  let maxDrawdown ← finite "max_drawdown" (get entries "max_drawdown")
  let winRate ← finite "win_rate" (get entries "win_rate")
  let totalReturn ← optional entries "total_return" (finite "total_return")
  let trialCount ← countOf entries "trial_count"
  let variantCount ← countOf entries "variant_count"
  if !isShare winRate then refuse "win_rate" "must be between 0 and 1"
  let variantReturns ← optional entries "variant_returns" variantTable
  return { returns, sharpe, maxDrawdown, winRate, trialCount, variantCount, variantReturns
           totalReturn }

def isList : Value → Bool
  | .list _ => true
  | _ => false

/-- The metrics of a record: fields have to be those of metrics, and returns have to be a list. -/
def ofEntries (entries : Entries Value) : Except Failure Metrics :=
  match requiredFields.find? (· ∉ Entries.keys entries) with
  | some field => refuse field "missing"
  | none =>
    match ((Entries.keys entries).filter (· ∉ fields)).mergeSort (· ≤ ·) with
    | field :: _ => refuse field "unknown field"
    | [] =>
      if isList (get entries "returns") then ofFields entries
      else refuse "returns" "expected a list of numbers"

/-- The metrics of a record that is passed on as it stands. -/
def make (entries : Entries Value) : Except Failure Metrics :=
  if requiredFields.all (· ∈ Entries.keys entries) && (Entries.keys entries).all (· ∈ fields) then
    ofFields entries
  else .error (.accident .wrongKind)

/-- The total return: as it is given, or compounded. -/
def compoundedReturn (m : Metrics) : Float :=
  match m.totalReturn with
  | some x => x
  | none => (m.returns.map (1 + ·)).foldl (· * ·) 1 - 1

end Metrics
end BacktestAudit.Statistics
