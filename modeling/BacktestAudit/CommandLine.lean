import BacktestAudit.CommandLine.Fix
import BacktestAudit.CommandLine.Scan
import BacktestAudit.CommandLine.Validate

/-!
The command line: arguments ask for a command, and the command comes to an outcome from what it can
see.
-/
namespace BacktestAudit.CommandLine
open BacktestAudit.Data BacktestAudit.Rules

def programName : String := "quantguard"

def programVersion : String := "0.1.0"

def helpLines : List String := [
  "Usage: quantguard [-v] [-q] COMMAND",
  "",
  "  scan PATH...    findings of programs [--json] [--strict] [-w N] [-c FILE] [--disable RULE]",
  "  fix PATH        a program with its fixes made [--write] [--json] [--strict] [-c FILE]",
  "  validate FILE   verdict on backtest metrics [--json] [--strict] [--blocks N] [--seed N]",
  "                  [-c FILE]",
  "  rules           the catalog of rules [--json]"]

/-! ## The catalog -/

def ruleRecord (r : Rule) : Value := .table [
  ("id", .text r.code), ("category", .text r.category.name), ("severity", .text r.severity.name),
  ("title", .text r.title), ("fixable", .bool r.isFixable)]

def rulesTable : Table where
  title := none
  columns := [⟨"Id", .left, 0⟩, ⟨"Category", .left, 0⟩, ⟨"Severity", .left, 0⟩, ⟨"Fix", .centre, 0⟩,
    ⟨"Title", .left, 0⟩]
  rows := Rule.all.map fun r =>
    [r.code, r.category.name, r.severity.name, yesIf r.isFixable, r.title]

def rulesOutput (json : Bool) : Output :=
  if json then .record (.list (Rule.all.map ruleRecord)) else .ofLines rulesTable.lines

/-! ## Running -/

def perform (s : Surroundings) : Request → Except Accident Outcome
  | .scan o => Scan.run s o
  | .fix o => Fix.run s o
  | .validate o => Validate.run s o
  | .rules json => .ok ⟨okCode, rulesOutput json, none⟩
  | .version => .ok ⟨okCode, .ofLines [programName ++ " version " ++ programVersion], none⟩
  | .help => .ok ⟨okCode, .ofLines helpLines, none⟩
  | .misuse => .ok ⟨errorCode, .text "", none⟩

def run (s : Surroundings) (arguments : List String) : Except Accident Outcome :=
  perform s (Request.ofArguments s.disk arguments)

/-- The exit code that an outcome comes to; work that ended in an accident has the code of a broken
policy. -/
def exitCode (r : Except Accident Outcome) : Nat :=
  match r with
  | .ok o => o.code
  | .error _ => blockedCode

end BacktestAudit.CommandLine
