import BacktestAudit.Statistics.Verdict

/-!
Reports for a gate that decides on policy: findings in order, with the verdict on a backtest if
there is one. A session collects reports by name.
-/
namespace BacktestAudit
open BacktestAudit.Data BacktestAudit.Statistics

structure Report where
  findings : List Finding
  verdict : Option Verdict

namespace Report

def make (findings : List Finding) (verdict : Option Verdict) : Report :=
  ⟨Finding.sorted findings, verdict⟩

def stopFindings (r : Report) : List Finding := Finding.blocking r.findings

def hasStopFlag (v : Verdict) : Bool := v.redFlags.any (·.severity = .stop)

/-- Whether a finding or a red flag stops the audit. -/
def hasBlocking (r : Report) : Bool :=
  !r.stopFindings.isEmpty || r.verdict.any hasStopFlag

/-- Whether nothing stops the audit and the verdict, if there is one, passed. -/
def passed (r : Report) : Bool := !r.hasBlocking && r.verdict.all (·.passed)

def count (r : Report) (s : Severity) : Nat := (r.findings.filter (·.severity = s)).length

end Report

/-! ## Records -/

def texts (ss : List String) : Value := .list (ss.map .text)

def Finding.record (f : Finding) : Value := .table [
  ("rule_id", .text f.rule), ("category", .text f.category.name),
  ("severity", .text f.severity.name), ("line_start", .int f.place.first),
  ("line_end", .int f.place.last), ("snippet", .text f.snippet), ("message", .text f.message),
  ("fix_available", .bool f.fixAvailable)]

namespace Statistics

def RedFlag.record (f : RedFlag) : Value := .table [
  ("code", .text f.code), ("rationale", .text f.rationale), ("value", .float f.value),
  ("threshold", f.threshold.toValue), ("severity", .text f.severity.name)]

def Verdict.record (v : Verdict) : Value := .table [
  ("required_tstat", .float v.requiredT), ("observed_tstat", .float v.observedT),
  ("deflated_sharpe", .float v.deflatedSharpe),
  ("pbo", (v.overfitting.map Value.float).getD .null),
  ("red_flags", .list (v.redFlags.map RedFlag.record)), ("passed", .bool v.passed),
  ("low_confidence", .bool v.lowConfidence), ("failures", texts v.failures),
  ("notes", texts v.notes)]

end Statistics

namespace Report

def summary (r : Report) : Value := .table [
  ("total", .int r.findings.length), ("stop", .int r.stopFindings.length),
  ("warn", .int (r.count .warn)), ("auto_fix", .int (r.count .autoFix)),
  ("has_blocking", .bool r.hasBlocking), ("passed", .bool r.passed)]

def fields (r : Report) : Entries Value := [
  ("findings", .list (r.findings.map Finding.record)),
  ("verdict", (r.verdict.map Verdict.record).getD .null), ("summary", r.summary)]

def record (r : Report) : Value := .table r.fields

end Report

/-! ## Sessions -/

/-- Reports by name, in the order in which they were added. -/
structure Session where
  reports : List (String × Report)

namespace Session

def empty : Session := ⟨[]⟩

def add (s : Session) (name : String) (r : Report) : Session := ⟨s.reports ++ [(name, r)]⟩

/-- The report that was last added under a name. -/
def get? (s : Session) (name : String) : Option Report := s.reports.reverse.lookup name

def hasBlocking (s : Session) : Bool := s.reports.any (·.2.hasBlocking)

def size (s : Session) : Nat := s.reports.length

theorem get_add (s : Session) (name other : String) (r : Report) :
    (s.add name r).get? other = if other = name then some r else s.get? other := by
  by_cases h : other = name
  · subst h
    simp [get?, add]
  · have hb : (other == name) = false := by simpa using h
    simp [get?, add, List.lookup_cons, h, hb]

def fields (s : Session) : Entries Value := [
  ("reports", .list (s.reports.map fun (name, r) => .table (("name", .text name) :: r.fields))),
  ("has_blocking", .bool s.hasBlocking)]

def record (s : Session) : Value := .table s.fields

end Session
end BacktestAudit
