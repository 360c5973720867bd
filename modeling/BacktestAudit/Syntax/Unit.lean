import BacktestAudit.Syntax.Grammar
import BacktestAudit.Source.Text

/-!
Units of source code: a named text with its statements.
-/
namespace BacktestAudit.Syntax

structure SourceUnit where
  text : String
  name : String
  statements : List Stmt

structure ParseError where
  unit : String
  fault : Fault
  deriving DecidableEq, Repr

namespace SourceUnit

def defaultName : String := "<unit>"

def parse (text name : String) : Except ParseError SourceUnit :=
  match parseProgram text with
  | .ok statements => .ok ⟨text, name, statements⟩
  | .error fault => .error ⟨name, fault⟩

theorem parse_eq_ok {text name : String} {u : SourceUnit} (h : parse text name = .ok u) :
    u.text = text ∧ u.name = name ∧ parseProgram text = .ok u.statements := by
  unfold parse at h
  split at h
  · next hs =>
    cases h
    exact ⟨rfl, rfl, hs⟩
  · cases h

end SourceUnit
end BacktestAudit.Syntax
