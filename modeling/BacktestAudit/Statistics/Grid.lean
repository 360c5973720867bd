import BacktestAudit.Data.Number
import BacktestAudit.Error

/-!
Grids of numbers in any number of dimensions; grids of doubles are read from nested lists. The lists
of a dimension are of one length.
-/
namespace BacktestAudit.Statistics
open BacktestAudit.Data BacktestAudit.Decimal

structure Grid (α : Type) where
  /-- The length of each dimension, the outermost first. -/
  shape : List Nat
  /-- The numbers, the last dimension running fastest. -/
  cells : List α

namespace Grid

mutual

/-- The shape of a value; none when lists of a dimension differ in shape. -/
def shape? : Value → Option (List Nat)
  | .list vs => do
    match ← shapes? vs with
    | [] => return [0]
    | s :: rest => if rest.all (· = s) then return vs.length :: s else none
  | _ => some []

def shapes? : List Value → Option (List (List Nat))
  | [] => some []
  | v :: vs => do return (← shape? v) :: (← shapes? vs)

end

/-- A double; null is no number. -/
def cell (v : Value) : Except Accident Float :=
  match v with
  | .null => .ok Binary64.notNumber
  | .text s =>
    match readFloat? s with
    | some x => .ok x
    | none => .error .wrongValue
  | v =>
    match v.number? with
    | some n =>
      match n.toFloat? with
      | some x => .ok x
      | none => .error .outOfRange
    | none => .error .wrongKind

mutual

def leaves : Value → List Value
  | .list vs => leavesOfAll vs
  | v => [v]

def leavesOfAll : List Value → List Value
  | [] => []
  | v :: vs => leaves v ++ leavesOfAll vs

end

def ofValue (v : Value) : Except Accident (Grid Float) :=
  match shape? v with
  | none => .error .wrongValue
  | some shape => return ⟨shape, ← (leaves v).mapM cell⟩

def ofRows (rows : List (List α)) : Grid α :=
  ⟨[rows.length, (rows.headD []).length], rows.flatten⟩

def series? (g : Grid α) : Option (List α) :=
  match g.shape with
  | [_] => some g.cells
  | _ => none

def rows? (g : Grid α) : Option (List (List α)) :=
  match g.shape with
  | [rows, columns] =>
    some ((List.range rows).map fun i => (g.cells.drop (i * columns)).take columns)
  | _ => none

end Grid
end BacktestAudit.Statistics
