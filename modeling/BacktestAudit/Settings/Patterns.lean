import BacktestAudit.Settings.Field

/-!
Name patterns that tell which columns hold positions, signals and credentials, and the datasets that
are known to cover the training and the evaluation range.
-/
namespace BacktestAudit
open BacktestAudit.Data Settings

structure PatternSettings where
  position : List String
  signal : List String
  credential : List String
  fullRange : List String
  deriving DecidableEq, Repr

namespace PatternSettings

def standard : PatternSettings where
  position := ["position", "positions", "pos", "*_position", "*_positions", "position_*",
    "target_pos*", "weight", "weights", "*_weight", "*_weights", "holding*", "exposure*",
    "allocation*", "order", "orders", "trade", "trades"]
  signal := ["signal", "signals", "sig", "*_signal", "*_signals", "signal_*", "pred", "preds",
    "prediction*", "*_pred", "forecast*", "*_forecast", "score", "*_score", "alpha", "*_alpha",
    "entry*", "exit*"]
  credential := ["*api_key*", "*apikey*", "*secret*", "*password*", "*passwd*", "*token*",
    "*private_key*"]
  fullRange := []

def sectionName : String := "PatternConfig"

def fields : List String :=
  ["position_patterns", "signal_patterns", "credential_patterns", "full_range_aliases"]

def textsOr (entries : Entries Value) (name : String) (default : List String) :
    Except SettingsFault (List String) :=
  match Entries.get? entries name with
  | some v => texts v
  | none => .ok default

/-- The patterns of given entries; positions and signals need a pattern each. -/
def ofEntries (entries : Entries Value) : Except SettingsFault PatternSettings := do
  checkFields sectionName fields entries
  let position ← textsOr entries "position_patterns" standard.position
  let signal ← textsOr entries "signal_patterns" standard.signal
  let credential ← textsOr entries "credential_patterns" standard.credential
  let fullRange ← textsOr entries "full_range_aliases" standard.fullRange
  if position.isEmpty then throw (.refused "position_patterns must not be empty")
  if signal.isEmpty then throw (.refused "signal_patterns must not be empty")
  return { position, signal, credential, fullRange }

end PatternSettings
end BacktestAudit
