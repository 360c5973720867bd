/-!
Lags: by how many periods the data behind a value is known to be delayed. A negative lag pulls
future data; nothing is known of an unknown one.

Lags are ordered by what they allow: negative ones come first, then the unknown one, then the
others. A value computed from several others has the least of their lags.
-/
namespace BacktestAudit.Flow

/-- A number of periods, or unknown. -/
abbrev Lag := Option Int

namespace Lag

def unknown : Lag := none

def isNegative : Lag → Bool
  | some n => n < 0
  | none => false

/-- The order of lags: negative, unknown, not negative. -/
def le : Lag → Lag → Bool
  | some a, some b => a ≤ b
  | some a, none => a < 0
  | none, some b => 0 ≤ b
  | none, none => true

def least : List Int → Option Int
  | [] => none
  | n :: ns =>
    match least ns with
    | some m => some (min n m)
    | none => some n

def known (lags : List Lag) : List Int := lags.filterMap id

/-- The lag of a value computed from values with the given lags: any future value dominates, then
the unknown, then the smallest lag. -/
def combine (lags : List Lag) : Lag :=
  match least ((known lags).filter (· < 0)) with
  | some n => some n
  | none => if lags.isEmpty || lags.any (·.isNone) then unknown else least (known lags)

/-- The lag of a value that is read with a shift: a shift of an unknown amount tells nothing; what
has an unknown lag of its own tells the shift alone, unless that is nothing. -/
def shifted (upstream : Lag) (shift : Option Int) : Lag :=
  match shift, upstream with
  | none, _ => unknown
  | some k, none => if k = 0 then unknown else some k
  | some k, some v => some (v + k)

end Lag
end BacktestAudit.Flow
