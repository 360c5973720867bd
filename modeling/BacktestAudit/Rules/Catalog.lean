import BacktestAudit.Rules.Leakage
import BacktestAudit.Rules.Lookahead
import BacktestAudit.Rules.Quality
import BacktestAudit.Rules.Security

/-!
The catalog of rules, in the order of their codes.
-/
namespace BacktestAudit.Rules
open BacktestAudit.Flow

inductive Rule where
  | deprecatedFill
  | globalStatistic
  | fitOnFullRange
  | unshiftedSignal
  | misalignedResample
  | forwardReference
  | centeredWindow
  | backfill
  | dynamicCode
  | credential
  deriving DecidableEq, Repr

namespace Rule

def all : List Rule :=
  [deprecatedFill, globalStatistic, fitOnFullRange, unshiftedSignal, misalignedResample,
   forwardReference, centeredWindow, backfill, dynamicCode, credential]

def code : Rule → String
  | deprecatedFill => "CQ001"
  | globalStatistic => "DL001"
  | fitOnFullRange => "DL002"
  | unshiftedSignal => "LB001"
  | misalignedResample => "LB002"
  | forwardReference => "LB003"
  | centeredWindow => "LB004"
  | backfill => "LB005"
  | dynamicCode => "SEC001"
  | credential => "SEC002"

def category : Rule → Category
  | deprecatedFill => .codeQuality
  | globalStatistic | fitOnFullRange => .dataLeakage
  | unshiftedSignal | misalignedResample | forwardReference | centeredWindow | backfill =>
    .lookaheadBias
  | dynamicCode | credential => .security

def severity : Rule → Severity
  | deprecatedFill => .autoFix
  | backfill | dynamicCode | credential => .warn
  | _ => .stop

def title : Rule → String
  | deprecatedFill => "Deprecated fillna(method=...)"
  | globalStatistic => "Global statistic over train and test"
  | fitOnFullRange => "Model or scaler fit on full range"
  | unshiftedSignal => "Unshifted signal used as position"
  | misalignedResample => "Resample labelled with interval start"
  | forwardReference => "Forward reference"
  | centeredWindow => "Centered rolling window"
  | backfill => "Backward fill"
  | dynamicCode => "eval/exec"
  | credential => "Hardcoded credential"

def description : Rule → String
  | deprecatedFill => "fillna(method='ffill') is deprecated in pandas 2.x."
  | globalStatistic =>
    "mean/std/min/max over a dataset spanning both training and evaluation."
  | fitOnFullRange => "fit/fit_transform on data that includes the evaluation range."
  | unshiftedSignal =>
    "A position-like column reads a signal-like column that carries no lag. " ++
      "Column roles are inferred from names and can miss unconventional naming."
  | misalignedResample =>
    "resample/Grouper with label='left' attributes a bar to its open time."
  | forwardReference => "Negative shift or positional index beyond the current bar."
  | centeredWindow => "rolling(center=True) averages over observations after the bar."
  | backfill => "bfill propagates later observations into earlier rows."
  | dynamicCode => "Dynamic code execution."
  | credential => "API keys, tokens or passwords assigned as string literals."

def isFixable : Rule → Bool
  | deprecatedFill | unshiftedSignal | misalignedResample | centeredWindow => true
  | _ => false

def findMatches (ctx : Context) (g : Graph) : Rule → Except Accident (List Match)
  | deprecatedFill => deprecatedFills g
  | globalStatistic => .ok (globalStatisticMatches ctx g)
  | fitOnFullRange => .ok (fitMatches ctx g)
  | unshiftedSignal => .ok (unshiftedSignals ctx g)
  | misalignedResample => .ok (leftLabels g)
  | forwardReference => .ok (forwardReferences g)
  | centeredWindow => .ok (centeredWindows g)
  | backfill => backfills g
  | dynamicCode => .ok (dynamicCalls g)
  | credential => .ok (credentials ctx g)

def ofCode? (code : String) : Option Rule := all.find? (·.code = code)

def active (disabled : List String) : List Rule := all.filter (·.code ∉ disabled)

theorem mem_all (r : Rule) : r ∈ all := by cases r <;> decide

theorem code_inj {r s : Rule} (h : r.code = s.code) : r = s := by
  revert h
  cases r <;> cases s <;> decide

theorem mem_active {r : Rule} {disabled : List String} :
    r ∈ active disabled ↔ r.code ∉ disabled := by
  simp [active, mem_all]

end Rule
end BacktestAudit.Rules
