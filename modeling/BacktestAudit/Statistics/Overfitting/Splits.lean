import BacktestAudit.Data.Number
import BacktestAudit.Error
import BacktestAudit.Statistics.Overfitting.Generator

/-!
Splits of blocks into two halves: all of them, or a sample when there are too many blocks. A split
is told by the blocks of its first half.
-/
namespace BacktestAudit.Statistics.Overfitting
open BacktestAudit.Data

/-- The sublists of a given length, in lexicographic order. -/
def combinations : Nat → List α → List (List α)
  | 0, _ => [[]]
  | _ + 1, [] => []
  | k + 1, x :: xs => (combinations k xs).map (x :: ·) ++ combinations (k + 1) xs

theorem sublist_of_mem_combinations {k : Nat} {xs ys : List α} (h : ys ∈ combinations k xs) :
    ys.Sublist xs ∧ ys.length = k := by
  induction xs generalizing k ys with
  | nil => cases k <;> simp_all [combinations]
  | cons x xs ih =>
    cases k with
    | zero =>
      simp only [combinations, List.mem_singleton] at h
      simp [h]
    | succ k =>
      simp only [combinations, List.mem_append, List.mem_map] at h
      rcases h with ⟨zs, hzs, rfl⟩ | h
      · have ⟨hs, hl⟩ := ih hzs
        exact ⟨hs.cons_cons x, by simp [hl]⟩
      · have ⟨hs, hl⟩ := ih h
        exact ⟨hs.cons x, hl⟩

def binomial (n k : Nat) : Nat :=
  if n < k then 0 else (List.range k).foldl (fun acc i => acc * (n - i) / (i + 1)) 1

/-- Some splits, chosen one after the other by one generator. -/
def sampled (n half : Nat) : Nat → Generator → List (List Nat)
  | 0, _ => []
  | count + 1, g =>
    let (chosen, g) := g.choose n half
    chosen.mergeSort (· ≤ ·) :: sampled n half count g

/-! ## Seeds as they are given -/

def isHexDigit (c : Char) : Bool := c.isDigit || ('a' ≤ c.toLower && c.toLower ≤ 'f')

def seedOfInt (n : Int) : Except Accident (List Nat) :=
  if n < 0 then .error .wrongValue else .ok (Seed.wordsOf n.toNat)

/-- The words of a seed in digits: in decimal ones, or after `0x` in hexadecimal ones. -/
def seedOfText (s : String) : Except Accident (List Nat) :=
  match s.toList with
  | '0' :: 'x' :: ds =>
    if !ds.isEmpty && ds.all isHexDigit then .ok (Seed.wordsOf (Decimal.valueIn 16 ds))
    else .error .wrongValue
  | c :: _ =>
    match readInt? s with
    | some n => if c.isDigit then seedOfInt n else .error .wrongValue
    | none => .error .wrongValue
  | [] => .error .wrongValue

mutual

/-- The words of a part of a seed: those of its items one after the other. -/
def seedWords : Value → Except Accident (List Nat)
  | .int n => seedOfInt n
  | .bool b => .ok [if b then 1 else 0]
  | .text s => seedOfText s
  | .list vs => seedWordsOfAll vs
  | .table es => return (← es.mapM fun e => seedOfText e.1).flatten
  | _ => .error .wrongKind

def seedWordsOfAll : List Value → Except Accident (List Nat)
  | [] => .ok []
  | v :: vs => do return (← seedWords v) ++ (← seedWordsOfAll vs)

end

def seedOf (v : Value) : Except Accident (List Nat) :=
  match v with
  | .text _ | .table _ => .error .wrongKind
  | v => seedWords v

/-! ## Splits -/

structure SplitPlan where
  blocks : Number
  /-- Up to as many blocks, all splits are taken. -/
  maxExact : Value
  /-- Beyond that, at most as many are. -/
  maxSampled : Value
  seed : Value

structure Splits where
  halves : List (List Nat)
  exhaustive : Bool
  deriving DecidableEq, Repr

namespace SplitPlan

def need (x? : Option α) : Except Accident α :=
  match x? with
  | some x => .ok x
  | none => .error .wrongKind

def natOf (n : Int) : Except Accident Nat :=
  if n < 0 then .error .wrongValue else .ok n.toNat

def isExact (p : SplitPlan) : Except Accident Bool := return p.blocks.le (← need p.maxExact.number?)

/-- How many splits are sampled: as many as there are, or as many as are allowed. -/
def sampleSize (p : SplitPlan) (all : Nat) : Except Accident Nat := do
  let most ← need p.maxSampled.number?
  if (Number.int all).lt most then return all else natOf (← need most.toInt?)

/-- Whether an array with a row of a length for each of some splits can be made: its bytes are
counted in 63 bits. -/
def isAddressable (count length : Nat) : Bool := 8 * count * length < 1 <<< 63

def splits (p : SplitPlan) : Except Accident Splits := do
  if ← p.isExact then
    let n ← natOf (← need p.blocks.toInt?)
    return ⟨combinations (n / 2) (List.range n), true⟩
  else
    let seed ← seedOf p.seed
    let n ← natOf (← need p.blocks.toInt?)
    let count ← p.sampleSize (binomial n (n / 2))
    if !isAddressable count (n / 2) then throw .wrongValue
    return ⟨sampled n (n / 2) count (.ofWords seed), false⟩

end SplitPlan
end BacktestAudit.Statistics.Overfitting
