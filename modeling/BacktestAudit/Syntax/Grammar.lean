import BacktestAudit.Syntax.Grammar.Compound

/-!
The grammar of the analysed language: its rules tied together level by level, and the parsing of
whole programs.
-/
namespace BacktestAudit.Syntax

namespace Grammar
open BacktestAudit.Syntax.Parser

def tooDeep : Parser α := fun _ p => .stopped ⟨⟨0, .nestingTooDeep⟩, true, p.reached⟩

/-- The rules of a level. Level zero is out of reach of every program that is accepted. -/
def level : Nat → Rules
  | 0 =>
    { expression := tooDeep, namedExpression := tooDeep, disjunction := tooDeep
      inversion := tooDeep, bitwiseOr := tooDeep, factor := tooDeep, starTarget := tooDeep
      starTargets := tooDeep, starAtomTarget := tooDeep, singleTarget := tooDeep
      deletionTarget := tooDeep, pattern := tooDeep, elifStmt := tooDeep, statements := tooDeep }
  | n + 1 =>
    let self := level n
    { expression := expression self, namedExpression := namedExpression self
      disjunction := disjunction self, inversion := inversion self, bitwiseOr := bitwiseOr self
      factor := factor self, starTarget := starTarget self, starTargets := starTargets self
      starAtomTarget := starAtomTarget self, singleTarget := singleTarget self
      deletionTarget := deletionTarget self, pattern := pattern self, elifStmt := elifStmt self
      statements := statements self }

end Grammar

/-- Programs whose trees are deeper than this are refused. -/
def maxDepth : Nat := 1000

def parseProgram (text : String) : Except Fault (List Stmt) := do
  if text.toList.any (·.toNat = 0) then throw ⟨0, .nullCharacter⟩
  let stream := Lexer.ofGlyphs (Glyph.ofText text)
  let statements ← stream.parse (Grammar.program (Grammar.level (2 * maxDepth)))
  if maxDepth < Stmt.depthOfAll statements then throw ⟨0, .nestingTooDeep⟩
  return statements

end BacktestAudit.Syntax
