import BacktestAudit.Data.Display
import BacktestAudit.Statistics.Grid
import BacktestAudit.Statistics.Overfitting.Degradation
import BacktestAudit.Statistics.Overfitting.Splits

/-!
The probability of overfitting: the share of splits of the blocks of time in which the variant that
is best in one half is degraded in the other. Splits are worked on in batches, and work can be
cancelled between them.
-/
namespace BacktestAudit.Statistics.Overfitting
open BacktestAudit.Data BacktestAudit.Decimal

structure Plan extends SplitPlan where
  /-- The splits in a batch. -/
  batchSize : Value
  /-- How many batches are worked on at a time; none to choose by itself. -/
  workers : Option Value

structure Estimate where
  probability : Float
  degraded : Nat
  combinations : Nat
  blocks : Number
  exhaustive : Bool

/-! ## Checks -/

def refuseData (reason minimum : String) : Except Failure α :=
  .error (.error (.insufficientData reason "variant_returns" (some minimum)))

def tooFewVariants : Except Failure α :=
  refuseData "PBO ranks variants against each other and needs at least 2 variant columns" "2"

def evenBlocks (n : Number) : Except Failure Int :=
  let refused : Except Failure Int :=
    .error (.error (.configuration s!"n_blocks must be an even number >= 2, got {n.display}" none))
  match n.toExtended with
  | .ratio num den => if num < 2 * den || num % (2 * den) ≠ 0 then refused else .ok (num / den)
  | _ => refused

/-- A whole number in the notation of another one. -/
def shownLike (n : Number) (whole : Int) : String :=
  match n with
  | .float _ => shortest (Binary64.ofInt whole)
  | _ => toString whole

/-- The rows of a grid of at least two variants, as many as a multiple of the blocks. -/
def checkedRows (blocks : Number) (grid : Grid α) : Except Failure (List (List α)) := do
  let count ← evenBlocks blocks
  let rows ← match grid.rows? with
    | some rows =>
      if 2 ≤ grid.shape.getD 1 0 then pure rows else tooFewVariants
    | none => tooFewVariants
  let length : Int := rows.length
  if length < count || length % count ≠ 0 then
    if !blocks.isWritable then throw (.accident .wrongValue)
    let shown := shownLike blocks
    refuseData (s!"returns length {length} must be a positive multiple of {shown count} blocks " ++
      s!"(e.g. {shown (max count (length - length % count))} rows)") (shown count)
  if rows.length / 2 < 2 then refuseData "each half needs at least 2 rows" "4"
  return rows

/-! ## Batches -/

def batches (size : Nat) (xs : List β) : List (List β) :=
  if _h : xs = [] ∨ size = 0 then []
  else xs.take size :: batches size (xs.drop size)
termination_by xs.length
decreasing_by
  simp only [not_or] at _h
  have := List.length_pos_iff.mpr _h.1
  simp only [List.length_drop]
  omega

/-- The batches of a size as it is given; there are none of a negative size. -/
def batchesOf (size : Value) (xs : List β) : Except Accident (List (List β)) := do
  let n ← SplitPlan.need (size.number?.bind Number.toInt?)
  if n = 0 then throw .wrongValue
  return batches n.toNat xs

def operation : String := "PBO enumeration"

/-- Counts batch by batch. Before each batch it is asked whether to cancel: `cancel k` is the answer
to the question asked after `k` others. -/
def countBatches (count : List β → Nat) (cancel : Nat → Bool) (total : Nat) :
    Nat → Nat → Nat → List (List β) → Except AuditError Nat
  | _, _, acc, [] => .ok acc
  | asked, done, acc, batch :: rest =>
    if cancel asked then .error (.cancelled operation done total)
    else countBatches count cancel total (asked + 1) (done + batch.length) (acc + count batch) rest

/-- Workers are none, or a positive number of them; one batch needs none. With workers that are no
number at all none would ever start. -/
def checkWorkers (workers : Option Value) (batchCount : Nat) : Except Accident Unit :=
  match workers with
  | none => .ok ()
  | some w => do
    if batchCount = 1 then return
    let n ← SplitPlan.need w.number?
    if !(Number.int 0).lt n then throw .wrongValue

/-! ## The estimate -/

def column [Scalar α] (j : Nat) (rows : List (List α)) : List α :=
  rows.map fun row => row.getD j zero

def columns [Scalar α] (width : Nat) (rows : List (List α)) : List (List α) :=
  (List.range width).map fun j => column j rows

/-- The estimate for a grid of returns: a row for each time, a column for each variant. -/
def estimate [Scalar α] (plan : Plan) (cancel : Nat → Bool) (returns : Grid α) :
    Except Failure Estimate := do
  let rows ← checkedRows plan.blocks returns
  let splits ← plan.splits.mapError .accident
  let blocks := (plan.blocks.toInt?.getD 0).toNat
  let variants := (columns (rows.headD []).length rows).map (BlockSums.ofReturns blocks)
  let parts ← (batchesOf plan.batchSize splits.halves).mapError .accident
  (checkWorkers plan.workers parts.length).mapError .accident
  let total := splits.halves.length
  let count := degradedCount blocks (rows.length / 2) variants
  let degraded ← (countBatches count cancel total 0 0 0 parts).mapError .error
  if total = 0 then throw (.accident .divisionByZero)
  return {
    probability := Binary64.nearest false degraded total
    degraded, combinations := total, blocks := plan.blocks, exhaustive := splits.exhaustive }

/-- The estimate for returns in nested lists; the number of blocks is checked before them. -/
def estimateOf (plan : Plan) (cancel : Nat → Bool) (returns : Value) : Except Failure Estimate := do
  let _ ← evenBlocks plan.blocks
  estimate plan cancel (← (Grid.ofValue returns).mapError .accident)

end BacktestAudit.Statistics.Overfitting
