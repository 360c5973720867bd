import BacktestAudit.Syntax.Constant

/-!
Columns of datasets, and how expressions name them.
-/
namespace BacktestAudit.Flow
open BacktestAudit.Syntax

/-- A column of a dataset, or a variable of its own when there is no dataset. -/
structure Column where
  dataset : String
  name : String
  deriving DecidableEq, Repr

namespace Column

def ofVariable (name : String) : Column := ⟨"", name⟩

/-- The dataset of a column; a variable is its own dataset. -/
def frame (c : Column) : String := if c.dataset.isEmpty then c.name else c.dataset

def display (c : Column) : String :=
  if c.dataset.isEmpty then c.name else c.dataset ++ "[\"" ++ c.name ++ "\"]"

end Column

/-! ## Names of columns -/

/-- Members that select rows and columns of the frame itself. -/
def indexers : List String := ["loc", "iloc", "at", "iat"]

/-- Members that stand for the whole frame and are no columns. -/
def frameMembers : List String :=
  ["index", "columns", "values", "shape", "dtypes", "T", "empty", "size"]

def alias? : Expr → Option String
  | .name _ id _ => some id
  | .member _ value attr => (alias? value).map (· ++ "." ++ attr)
  | _ => none

def leadingName (dotted : String) : String :=
  String.ofList (dotted.toList.takeWhile (· ≠ '.'))

def lastElement? : Expr → Option Expr
  | .tuple _ es => es.getLast?
  | _ => none

/-- The container and the key that a subscript names a column by: the subscript of a frame itself,
or the last part of a subscript of one of its indexers. -/
def columnParts? (value index : Expr) : Option (Expr × Expr) :=
  match value with
  | .member _ container attr =>
    if attr ∈ indexers then (lastElement? index).map (container, ·) else some (value, index)
  | _ => some (value, index)

/-- The column that a subscript denotes; imported names are no datasets. -/
def columnOf? (imported : List String) (value index : Expr) : Option Column := do
  let (container, key) ← columnParts? value index
  let name ← key.textConstant?
  let dataset ← alias? container
  if leadingName dataset ∈ imported then none else some ⟨dataset, name⟩

end BacktestAudit.Flow
