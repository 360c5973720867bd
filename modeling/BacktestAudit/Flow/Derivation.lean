import BacktestAudit.Flow.Column

/-!
Datasets derived from others: the head or the tail of one, or a selection that keeps its rows.
-/
namespace BacktestAudit.Flow
open BacktestAudit.Syntax BacktestAudit.Source

inductive DerivationKind where
  | head
  | tail
  | select
  deriving DecidableEq, Repr

structure Derivation where
  target : String
  source : String
  kind : DerivationKind
  place : Lines

/-- Methods that keep the full time range. -/
def selectMethods : List String := ["copy", "dropna", "drop", "filter", "astype", "fillna", "ffill"]

/-- What a subscript takes: a slice without a step that is open on one side, or a selection by a
name, a key or a list. -/
def subscriptKind? : Expr → Option DerivationKind
  | .composite _ (.slice false true false) _ => some .head
  | .composite _ (.slice true false false) _ => some .tail
  | .name .. | .list .. => some .select
  | .constant _ (.str _) => some .select
  | _ => none

def methodKind? (method : String) : Option DerivationKind :=
  if method = "head" then some .head
  else if method = "tail" then some .tail
  else if method ∈ selectMethods then some .select
  else none

def firstPart : Expr → Expr
  | .tuple _ (e :: _) => e
  | e => e

def derived? : Expr → Option (String × DerivationKind)
  | .subscript _ value index => do
    let container := match value with
      | .member _ inner attr => if attr = "iloc" || attr = "loc" then inner else value
      | _ => value
    let source ← alias? container
    return (source, ← subscriptKind? (firstPart index))
  | .call _ (.member _ value method) _ => do
    let source ← alias? value
    return (source, ← methodKind? method)
  | _ => none

/-- The derivation that an assignment to a variable makes; a dataset is not derived from itself. -/
def derivation? (target value : Expr) (place : Lines) : Option Derivation :=
  match target with
  | .name _ id _ =>
    match derived? value with
    | some (source, kind) => if source = id then none else some ⟨id, source, kind, place⟩
    | none => none
  | _ => none

end BacktestAudit.Flow
