import BacktestAudit.Data.Sorted
import BacktestAudit.Source.Text

/-!
Findings: what a rule reports of a place in a unit, with the edits that mend it if there are any.
-/
namespace BacktestAudit
open BacktestAudit.Source

inductive Category where
  | lookaheadBias
  | dataLeakage
  | codeQuality
  | security
  deriving DecidableEq, Repr

def Category.name : Category → String
  | lookaheadBias => "lookahead_bias"
  | dataLeakage => "data_leakage"
  | codeQuality => "code_quality"
  | security => "security"

/-- How much a finding weighs: a defect that is not to be passed over, advice, or a cleanup that
always comes with its edits. -/
inductive Severity where
  | stop
  | warn
  | autoFix
  deriving DecidableEq, Repr

def Severity.name : Severity → String
  | stop => "STOP"
  | warn => "WARN"
  | autoFix => "AUTO_FIX"

structure Edit where
  span : Span
  replacement : String
  deriving DecidableEq, Repr

/-- What tells findings of a unit apart. -/
structure FindingKey where
  rule : String
  place : Lines
  deriving DecidableEq, Repr

structure Finding where
  rule : String
  category : Category
  severity : Severity
  place : Lines
  /-- The first of the lines, as it is shown. -/
  snippet : String
  message : String
  fixAvailable : Bool
  edits : List Edit
  deriving DecidableEq, Repr

namespace Finding

def key (f : Finding) : FindingKey := ⟨f.rule, f.place⟩

def isBlocking (f : Finding) : Bool := f.severity = .stop

/-- The order of reports: by the first line, then by the rule. -/
def le (a b : Finding) : Bool :=
  a.place.first < b.place.first || a.place.first = b.place.first && decide (a.rule ≤ b.rule)

theorem le_iff {a b : Finding} : a.le b = true ↔
    a.place.first < b.place.first ∨ a.place.first = b.place.first ∧ a.rule ≤ b.rule := by
  simp [le]

theorem le_trans (a b c : Finding) (hab : a.le b = true) (hbc : b.le c = true) :
    a.le c = true := by
  rw [le_iff] at hab hbc ⊢
  rcases hab with hab | ⟨hab, hrule⟩
  · omega
  · rcases hbc with hbc | ⟨hbc, hrule'⟩
    · omega
    · exact .inr ⟨hab.trans hbc, String.le_trans hrule hrule'⟩

theorem le_total (a b : Finding) : (a.le b || b.le a) = true := by
  rw [Bool.or_eq_true, le_iff, le_iff]
  have hrule := String.le_total a.rule b.rule
  rcases Int.lt_trichotomy a.place.first b.place.first with h | h | h
  · exact .inl (.inl h)
  · exact hrule.imp (fun hr => .inr ⟨h, hr⟩) fun hr => .inr ⟨h.symm, hr⟩
  · exact .inr (.inl h)

def sorted (fs : List Finding) : List Finding := sortBy le fs

def blocking (fs : List Finding) : List Finding := fs.filter isBlocking

end Finding
end BacktestAudit
