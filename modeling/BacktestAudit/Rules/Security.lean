import BacktestAudit.Rules.Match

/-!
Rules on security: code that runs text, and secrets written into the code.
-/
namespace BacktestAudit.Rules
open BacktestAudit.Syntax BacktestAudit.Flow

/-- Functions that run the text they are given. -/
def runners : List String := ["eval", "exec"]

def dynamicCalls (g : Graph) : List Match :=
  g.calls.filterMap fun c =>
    if c.isFunction && c.method ∈ runners && c.receiverChain.isEmpty then
      some { place := c.lines, message := s!"{c.method}() executes arbitrary code", edits := [] }
    else none

def isTextLiteral : Expr → Bool
  | .constant _ (.str s) => !s.isEmpty
  | _ => false

def credentials (ctx : Context) (g : Graph) : List Match :=
  g.assignments.toList.filterMap fun a =>
    if ctx.roles.isCredential a.target.name && a.isConstant && isTextLiteral a.expression then
      some {
        place := a.place
        message := s!"{a.target.display} holds a literal credential; " ++
          "read it from the environment"
        edits := [] }
    else none

end BacktestAudit.Rules
