import BacktestAudit.Syntax.Unit

/-!
Statements about the unit of a given text, in a form that can be computed.
-/
namespace BacktestAudit.Syntax.SourceUnit
set_option autoImplicit false

/-- Whether a text is a program whose unit passes a test. -/
def parsesTo (text name : String) (test : SourceUnit → Bool) : Bool :=
  match parse text name with
  | .ok u => test u
  | .error _ => false

theorem parses_to_iff {text name : String} {test : SourceUnit → Bool} :
    parsesTo text name test = true ↔ ∃ u, parse text name = .ok u ∧ test u = true := by
  unfold parsesTo
  cases parse text name with
  | ok u => simp
  | error e => simp

end BacktestAudit.Syntax.SourceUnit
