import BacktestAudit.CommandLine.Outcome
import BacktestAudit.CommandLine.Request
import BacktestAudit.Data.Json

/-!
Validation: the metrics of a backtest are read from a file, and the verdict on them is told gate by
gate.
-/
namespace BacktestAudit.CommandLine.Validate
open BacktestAudit.Data BacktestAudit.Decimal BacktestAudit.Statistics

/-- The metrics that a text holds. An integer that is too long is no fault of the format. -/
def readMetrics (text : String) : Except Failure Metrics :=
  match Json.parse text with
  | .error (.tooLong, _) => .error (.accident .wrongValue)
  | .error (reason, line) => Metrics.refuse "metrics" s!"invalid JSON at line {line}: {reason.message}"
  | .ok (.table entries) => Metrics.ofEntries entries
  | .ok _ => Metrics.refuse "metrics" "expected a JSON object"

/-! ## Output -/

def shareShown (n : Number) : Except Accident String := RedFlag.shownAs (fixed 2) n

/-- A threshold that may be of any size. -/
def triggerShown (v : Value) : Except Accident String := do
  RedFlag.shownAs (general 6) (← RedFlag.threshold? v)

def gateTable (st : StatisticsSettings) (v : Verdict) : Except Accident Table := do
  let pass ← shareShown st.deflatedPass
  let trigger ← triggerShown st.sharpeTrigger
  let limit ← shareShown st.overfitPass
  return {
    title := none
    columns := [⟨"Check", .left, 20⟩, ⟨"Observed", .right, 0⟩, ⟨"Required", .right, 0⟩]
    rows := [
      ["t-statistic", fixed 2 v.observedT, ">= " ++ fixed 2 v.requiredT],
      ["Deflated Sharpe", fixed 3 v.deflatedSharpe, s!">= {pass} (Sharpe > {trigger})"],
      ["PBO", (v.overfitting.map (fixed 3)).getD "n/a", "< " ++ limit]] }

def shownLines (st : StatisticsSettings) (v : Verdict) : Except Accident (List String) := do
  let table ← gateTable st v
  return table.lines ++
    v.redFlags.map (fun f => f.code ++ " " ++ f.rationale) ++
    v.notes.map ("note: " ++ ·) ++ v.failures.map ("failed: " ++ ·) ++
    [if v.passed then "PASSED" else "FAILED"] ++
    if v.lowConfidence then ["low confidence: too few returns for higher moments"] else []

def outputOf (json : Bool) (st : StatisticsSettings) (v : Verdict) : Except Accident Output :=
  if json then .ok (.record (Report.make [] (some v)).record)
  else Output.ofLines <$> shownLines st v

/-! ## The command -/

def overrides (o : ValidateOptions) : Entries Value :=
  let given := (o.blocks.map fun n => ("pbo_blocks", Value.int n)).toList ++
    (o.seed.map fun n => ("pbo_seed", Value.int n)).toList
  if given.isEmpty then [] else [("statistics", .table given)]

def verdictOf (settings : Settings) (text : String) : Except Failure Verdict := do
  Verdict.ofMetrics settings (fun _ => false) (← readMetrics text)

def run (s : Surroundings) (o : ValidateOptions) : Except Accident Outcome :=
  orError false (s.settings o.config (overrides o)) fun settings => do
    let text ← s.text o.path
    orError o.json (verdictOf settings text) fun v => do
      let output ← outputOf o.json settings.statistics v
      return .ofPolicy o.strict (!(Report.make [] (some v)).passed) output

end BacktestAudit.CommandLine.Validate
