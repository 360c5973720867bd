import BacktestAudit.Settings.Patterns
import BacktestAudit.Settings.Statistics

/-!
The settings of an audit.
-/
namespace BacktestAudit
open BacktestAudit.Data

structure Settings where
  /-- How many units are worked on at a time; none to choose by itself. -/
  workers : Option Number
  disabledRules : List String
  patterns : PatternSettings
  statistics : StatisticsSettings

namespace Settings

def standard : Settings := ⟨none, [], .standard, .standard⟩

def sectionName : String := "QuantGuardConfig"

def fields : List String := ["workers", "disabled_rules", "patterns", "statistics"]

def ofEntries (entries : Entries Value) (patterns : PatternSettings)
    (statistics : StatisticsSettings) : Except SettingsFault Settings := do
  checkFields sectionName fields entries
  let disabledRules ← match Entries.get? entries "disabled_rules" with
    | some v => texts v
    | none => pure []
  let workers ← match field entries "workers" .null with
    | .null => pure none
    | v => some <$> checkedNumber v (StatisticsSettings.isAtLeast 1) "workers must be at least 1"
  return { workers, disabledRules, patterns, statistics }

/-- The entries of a section; a section that is no table has the wrong kind. -/
def sectionEntries (entries : Entries Value) (name : String) :
    Except SettingsFault (Entries Value) :=
  match Entries.get? entries name with
  | none => .ok []
  | some (.table es) => .ok es
  | some _ => .error .wrongKind

/-- The settings that a caller gives: the sections are made first. -/
def make (entries : Entries Value) : Except SettingsFault Settings := do
  let patterns ← PatternSettings.ofEntries (← sectionEntries entries "patterns")
  let statistics ← StatisticsSettings.ofEntries (← sectionEntries entries "statistics")
  ofEntries entries patterns statistics

end Settings
end BacktestAudit
