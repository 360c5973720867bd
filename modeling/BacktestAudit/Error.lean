import BacktestAudit.Source.Span
import BacktestAudit.Syntax.Unit

/-!
What can go wrong. An error is a refusal with a cause of its own; errors form families. An accident
is the outcome of a step that was given a value it has no meaning for.
-/
namespace BacktestAudit
open BacktestAudit.Source BacktestAudit.Syntax

/-! ## Families -/

inductive ErrorKind where
  | general
  | analysis
  | parse
  | fix
  | fixUnavailable
  | overlap
  | fixVerification
  | evaluation
  | insufficientData
  | invalidMetrics
  | cancelled
  | configuration
  deriving DecidableEq, Repr

namespace ErrorKind

def all : List ErrorKind :=
  [general, analysis, parse, fix, fixUnavailable, overlap, fixVerification, evaluation,
   insufficientData, invalidMetrics, cancelled, configuration]

def name : ErrorKind → String
  | general => "QuantGuardError"
  | analysis => "AnalysisError"
  | parse => "ParseError"
  | fix => "FixError"
  | fixUnavailable => "FixUnavailableError"
  | overlap => "OverlapError"
  | fixVerification => "FixVerificationError"
  | evaluation => "EvaluationError"
  | insufficientData => "InsufficientDataError"
  | invalidMetrics => "InvalidMetricsError"
  | cancelled => "Cancelled"
  | configuration => "ConfigurationError"

/-- The families that a kind belongs to, the narrowest first. -/
def families : ErrorKind → List ErrorKind
  | general => []
  | analysis | evaluation | cancelled | configuration => [general]
  | parse | fix => [analysis, general]
  | fixUnavailable | overlap | fixVerification => [fix, analysis, general]
  | insufficientData | invalidMetrics => [evaluation, general]

theorem families_trans (k : ErrorKind) : ∀ f ∈ k.families, ∀ g ∈ f.families, g ∈ k.families := by
  cases k <;> decide

theorem not_mem_families (k : ErrorKind) : k ∉ k.families := by
  cases k <;> decide

end ErrorKind

/-! ## Errors -/

inductive AuditError where
  /-- An error of a family that has no form of its own. -/
  | other (kind : ErrorKind) (message : String) (details : List (String × String))
  | parse (unit : String) (line : Int) (column : Option Int) (reason : String)
  | fixUnavailable (rule : String) (line : Int)
  | overlap (first second : String) (span : Span)
  | fixVerification (rule : String) (place : Lines) (reason : Option String)
  | insufficientData (reason field : String) (minimum : Option String)
  | invalidMetrics (field reason : String)
  | cancelled (operation : String) (completed total : Int)
  | configuration (reason : String) (source : Option String)
  deriving DecidableEq, Repr

namespace AuditError

def kind : AuditError → ErrorKind
  | other k .. => k
  | parse .. => .parse
  | fixUnavailable .. => .fixUnavailable
  | overlap .. => .overlap
  | fixVerification .. => .fixVerification
  | insufficientData .. => .insufficientData
  | invalidMetrics .. => .invalidMetrics
  | cancelled .. => .cancelled
  | configuration .. => .configuration

def message : AuditError → String
  | other _ text _ => text
  | parse unit line column _ =>
    s!"Failed to parse {unit} at line {line}" ++
      match column with
      | some c => s!", column {c}"
      | none => ""
  | fixUnavailable rule _ => s!"No automatic fix for {rule}"
  | overlap first second _ => s!"Rewrites for {first} and {second} overlap"
  | fixVerification rule _ _ => s!"Fix for {rule} did not resolve the finding"
  | insufficientData reason _ _ => s!"Insufficient data for analysis: {reason}"
  | invalidMetrics field reason => "Invalid metric '" ++ field ++ "': " ++ reason
  | cancelled operation _ _ => s!"{operation} cancelled"
  | configuration reason _ => s!"Invalid configuration: {reason}"

/-- What is known of an error besides its message, by name. -/
def details : AuditError → List (String × String)
  | other _ _ entries => entries
  | parse unit line column reason =>
    [("unit", unit), ("line", toString line)] ++
      (column.map fun c => ("column", toString c)).toList ++ [("reason", reason)]
  | fixUnavailable rule line => [("rule_id", rule), ("line", toString line)]
  | overlap first second span =>
    [("first", first), ("second", second), ("span", s!"{span.start}-{span.stop}")]
  | fixVerification rule place reason =>
    [("rule_id", rule), ("line", toString place.first)] ++
      ((reason.filter (!·.isEmpty)).map fun r => ("reason", r)).toList
  | insufficientData reason field minimum =>
    [("field", field), ("reason", reason)] ++
      (minimum.map fun m => ("minimum_required", m)).toList
  | invalidMetrics field _ => [("field", field)]
  | cancelled _ completed total =>
    [("completed", toString completed), ("total", toString total)]
  | configuration _ source => (source.map fun s => ("source", s)).toList

def display (e : AuditError) : String :=
  if e.details.isEmpty then e.message
  else
    e.message ++ " (" ++ ", ".intercalate (e.details.map fun (k, v) => k ++ "=" ++ v) ++ ")"

def ofParse (e : ParseError) : AuditError :=
  .parse e.unit e.fault.line none e.fault.cause.message

end AuditError

/-! ## Accidents -/

/-- What a step that was given a meaningless value runs into. -/
inductive Accident where
  /-- A value of a kind that the step cannot use. -/
  | wrongKind
  /-- A value of the right kind that the step cannot use. -/
  | wrongValue
  | outOfRange
  | missingKey
  | missingItem
  | undecodable
  | divisionByZero
  deriving DecidableEq, Repr

/-- How a step that is not sure to succeed ends when it does not. -/
inductive Failure where
  | error (e : AuditError)
  | accident (a : Accident)
  deriving DecidableEq, Repr

end BacktestAudit
