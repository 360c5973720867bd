import BacktestAudit.Error
import BacktestAudit.Finding
import BacktestAudit.Flow.Spanning
import BacktestAudit.Rules.Roles

/-!
What a rule sees and what it reports.
-/
namespace BacktestAudit.Rules
open BacktestAudit.Source BacktestAudit.Syntax BacktestAudit.Flow

/-- What all rules are given besides the graph: the roles of columns and the datasets that cover the
training and the evaluation range. -/
structure Context where
  roles : Roles
  spanning : List String

/-- A place that a rule reports, with the edits that mend it. -/
structure Match where
  place : Lines
  message : String
  edits : List Edit

/-- Names in order, each once. -/
def sortedNames (names : List String) : List String := (sortBy (· ≤ ·) names).eraseReps

def enumerate (names : List String) : String := ", ".intercalate (sortedNames names)

/-- Looks a literal up among words. A list, a table, or a tuple that holds one or a set, cannot be
looked up. -/
def lookUp (l : Literal) (words : List String) : Except Accident Bool :=
  match l with
  | .str s => .ok (s ∈ words)
  | .set _ => .ok false
  | l => if l.isKey then .ok false else .error .wrongKind

/-- Whether an argument by name is a literal among words. -/
def keywordAmong (c : CallSite) (name : String) (words : List String) : Except Accident Bool :=
  match c.keyword? name with
  | some l => lookUp l words
  | none => .ok false

end BacktestAudit.Rules
