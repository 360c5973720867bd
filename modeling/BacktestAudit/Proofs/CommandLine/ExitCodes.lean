import BacktestAudit.CommandLine
import BacktestAudit.Data.Outcome
import BacktestAudit.Proofs.CommandLine.FixPass
import BacktestAudit.Proofs.Rules.Batch
import BacktestAudit.Proofs.Statistics.Gates

/-!
What the exit code of a command tells. Work that ends in an accident has the code of a broken policy,
whatever was asked for; all other work has the code of an error when something could not be processed,
and the code of a broken policy when that is broken under a strict command.
-/
namespace BacktestAudit.CommandLine
open BacktestAudit.Syntax BacktestAudit.Rules BacktestAudit.Fix BacktestAudit.Statistics
  BacktestAudit.Data.Outcome
set_option autoImplicit false

/-! ## What may come of a request -/

/-- A file that holds a program. -/
def Surroundings.Program (s : Surroundings) (path : String) (unit : SourceUnit) : Prop :=
  ∃ text, s.text path = .ok text ∧ SourceUnit.parse text path = .ok unit

namespace Request

/-- The settings that a request is carried out under. -/
def settings (s : Surroundings) : Request → Except Failure Settings
  | .scan o => s.settings o.config (Scan.overrides o)
  | .fix o => s.settings o.config []
  | .validate o => s.settings o.config (Validate.overrides o)
  | _ => .ok .standard

variable (s : Surroundings)

/-- A request ends in an accident: in its settings, in the analysis of a program, in a file that is
no text, in what fixes leave, or in a verdict. A scan tells of files that are no text instead. -/
inductive Accidental : Request → Prop
  | settings {r : Request} {a : Accident} (h : r.settings s = .error (.accident a)) : Accidental r
  | scanned {o : ScanOptions} {st : Settings} {path : String} {unit : SourceUnit}
      (hst : settings s (.scan o) = .ok st) (hpath : path ∈ s.disk.programs o.paths)
      (hunit : s.Program path unit) (h : ¬Analyzable st unit) : Accidental (.scan o)
  | fixed {o : FixOptions} {st : Settings} {a : Accident} (hst : settings s (.fix o) = .ok st)
      (h : s.text o.path = .error a) : Accidental (.fix o)
  | analysed {o : FixOptions} {st : Settings} {unit : SourceUnit}
      (hst : settings s (.fix o) = .ok st) (hunit : s.Program o.path unit)
      (h : ¬Analyzable st unit) : Accidental (.fix o)
  | applied {o : FixOptions} {st : Settings} {unit : SourceUnit} {found : List Finding}
      {a : Accident} (hst : settings s (.fix o) = .ok st) (hunit : s.Program o.path unit)
      (hfound : analyze st unit = .ok found)
      (h : Fix.apply st unit (select found).selected = .error (.accident a)) : Accidental (.fix o)
  | metrics {o : ValidateOptions} {st : Settings} {a : Accident}
      (hst : settings s (.validate o) = .ok st) (h : s.text o.path = .error a) :
      Accidental (.validate o)
  | verdict {o : ValidateOptions} {st : Settings} {text : String} {a : Accident}
      (hst : settings s (.validate o) = .ok st) (htext : s.text o.path = .ok text)
      (h : Validate.verdictOf st text = .error (.accident a)) : Accidental (.validate o)
  | shown {o : ValidateOptions} {st : Settings} {text : String} {v : Verdict} {a : Accident}
      (hst : settings s (.validate o) = .ok st) (htext : s.text o.path = .ok text)
      (hv : Validate.verdictOf st text = .ok v)
      (h : Validate.outputOf o.json st.statistics v = .error a) : Accidental (.validate o)

end Request

/-! ## Fixing -/

section Fix
variable {s : Surroundings} {r : Request} {o : FixOptions} {st : Settings}

section Pass
variable {text : String} (hst : Request.settings s (.fix o) = .ok st)
  (htext : s.text o.path = .ok text)

end Pass

end Fix
/-! ## Validation -/

section Validate
variable {s : Surroundings} {o : ValidateOptions} {st : Settings} {text : String} {v : Verdict}

section Text
variable (hst : Request.settings s (.validate o) = .ok st) (htext : s.text o.path = .ok text)

end Text

end Validate

/-! ## Scanning -/

section Scan
variable {s : Surroundings} {o : ScanOptions} {st : Settings}

/-- Whether a named text has a finding that stops the audit. -/
def Stops (st : Settings) (unit : String × String) : Prop :=
  ∃ fs, analyzeText st unit.2 unit.1 = .ok fs ∧ ∃ f ∈ fs, f.severity = .stop

end Scan

/-! ## Command lines -/

end BacktestAudit.CommandLine
