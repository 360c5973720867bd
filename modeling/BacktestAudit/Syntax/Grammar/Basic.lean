import BacktestAudit.Syntax.Parsing

/-!
What the parts of the grammar share: the rules that refer to each other, and the reading of lists.

The grammar is recursive, so its rules are built in levels. A rule of one level refers to the rules
of the level below; the number of levels bounds how deep a program may be nested.
-/
namespace BacktestAudit.Syntax
open BacktestAudit.Source

/-- The rules of the level below. -/
structure Rules where
  expression : Parser Expr
  namedExpression : Parser Expr
  disjunction : Parser Expr
  inversion : Parser Expr
  bitwiseOr : Parser Expr
  factor : Parser Expr
  starTarget : Parser Expr
  starTargets : Parser Expr
  starAtomTarget : Parser Expr
  singleTarget : Parser Expr
  deletionTarget : Parser Expr
  pattern : Parser Unit
  elifStmt : Parser (List Stmt)
  statements : Parser (List Stmt)

namespace Grammar
open BacktestAudit.Syntax.Parser

def comma : Parser Token := symbol ","

def isAnyOf (texts : List String) : Parser Token := firstOf (texts.map symbol)

/-- Words of the language that only some statements reserve. -/
def softKeywords : List String := ["_", "case", "match"]

def beginsSoftKeyword : Parser Token :=
  satisfy fun t => t.kind = .name && softKeywords.any (t.text.isPrefixOf ·)

/-- A name that is bound where it stands. -/
def boundName : Parser Expr := located do
  let t ← anyName
  return fun e => .name e t.text .bind

/-- A name that is read where it stands. -/
def readName : Parser Expr := located do
  let t ← anyName
  return fun e => .name e t.text .read

/-- Items with commas between them: one item stands for itself, more (or a comma at the end) make a
tuple. -/
def tupleOrItem (item : Parser Expr) : Parser Expr :=
  (located do
    let a ← item
    let rest ← many1 (do let _ ← comma; item)
    let _ ← optional comma
    return fun e => .tuple e (a :: rest))
  <|> (located do
    let a ← item
    let _ ← comma
    return fun e => .tuple e [a])
  <|> item

/-- Items with commas between them, and perhaps one more at the end. -/
def commaList (item : Parser α) : Parser (List α) := do
  let items ← sepBy1 item comma
  let _ ← optional comma
  return items

end Grammar

/-! ## Targets -/

inductive TargetUse where
  | assignment
  | deletion
  | loop
  deriving DecidableEq, Repr

mutual

def Expr.invalidTarget? (kind : TargetUse) : Expr → Option Expr
  | .list _ es | .tuple _ es => invalidTargetOfAll? kind es
  | .starred e v => if kind = .deletion then some (.starred e v) else v.invalidTarget? kind
  | .composite e (.comparison membership) parts =>
    if kind = .loop then
      if membership then firstInvalidTarget? kind parts else none
    else some (.composite e (.comparison membership) parts)
  | .name .. | .subscript .. | .member .. => none
  | e => some e

def invalidTargetOfAll? (kind : TargetUse) : List Expr → Option Expr
  | [] => none
  | e :: es =>
    match e.invalidTarget? kind with
    | some bad => some bad
    | none => invalidTargetOfAll? kind es

/-- The loop variable of a membership test is its left side. -/
def firstInvalidTarget? (kind : TargetUse) : List Expr → Option Expr
  | [] => none
  | e :: _ => e.invalidTarget? kind

end

namespace Grammar
open BacktestAudit.Syntax.Parser

/-- A fault at the part that cannot be a target; refuses when there is none. -/
def raiseInvalidTarget (kind : TargetUse) (e : Expr) : Parser α :=
  match e.invalidTarget? kind with
  | some bad => raiseAt bad.extent.firstLine .invalidTarget
  | none => refuse

def raiseAtExpr (e : Expr) : Parser α := raiseAt e.extent.firstLine .invalidSyntax

def raiseAtToken (t : Token) : Parser α := raiseAt t.firstLine .invalidSyntax

end Grammar
end BacktestAudit.Syntax
