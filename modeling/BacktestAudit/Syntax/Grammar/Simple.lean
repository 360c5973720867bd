import BacktestAudit.Syntax.Grammar.Target

/-!
Statements on one line.
-/
namespace BacktestAudit.Syntax.Grammar
open BacktestAudit.Source BacktestAudit.Syntax.Parser

/-! ## Assignments -/

def assigned (self : Rules) : Parser Expr := yieldExpr self <|> starExpressions self

def augmentedOps : List String :=
  ["+=", "-=", "*=", "@=", "/=", "%=", "&=", "|=", "^=", "<<=", ">>=", "**=", "//="]

/-- A display that cannot carry a type hint; brackets around it do not matter. -/
def unannotatable (self : Rules) : Nat → Parser Expr
  | 0 => refuse
  | n + 1 => firstOf [
    listDisplay self,
    tupleDisplay self,
    (do
      let _ ← symbol "("
      let v ← unannotatable self n
      let _ ← symbol ")"
      return v)]

def invalidAssignment (self : Rules) : Parser α := diagnosing <| firstOf [
  (do
    let a ← fun s p => unannotatable self s.stream.tokens.size s p
    let _ ← symbol ":"
    let _ ← expression self
    raiseAtExpr a),
  (do
    let a ← starNamedExpression self
    let _ ← comma
    let _ ← many (starNamedExpressions self)
    let _ ← symbol ":"
    let _ ← expression self
    raiseAtExpr a),
  (do
    let a ← expression self
    let _ ← symbol ":"
    let _ ← expression self
    raiseAtExpr a),
  (do
    let _ ← many (do let _ ← starTargets self; symbol "=")
    let a ← starExpressions self
    let _ ← symbol "="
    raiseInvalidTarget .assignment a),
  (do
    let _ ← many (do let _ ← starTargets self; symbol "=")
    let a ← yieldExpr self
    let _ ← symbol "="
    raiseAtExpr a),
  (do
    let a ← starExpressions self
    let _ ← isAnyOf augmentedOps
    let _ ← assigned self
    raiseAtExpr a)]

def annotated (self : Rules) (target : Parser Expr) : Parser Stmt := located do
  let t ← target
  let _ ← symbol ":"
  let a ← expression self
  let v ← optional (do let _ ← symbol "="; assigned self)
  return fun e => .annotate e t a v

def assignment (self : Rules) : Parser Stmt := firstOf [
  annotated self boundName,
  annotated self
    ((do
      let _ ← symbol "("
      let t ← singleTarget self
      let _ ← symbol ")"
      return t)
    <|> partTarget self),
  (located do
    let targets ← many1 do
      let t ← starTargets self
      let _ ← symbol "="
      return t
    let v ← assigned self
    notAhead (symbol "=")
    return fun e => .assign e targets v),
  (do
    let first ← position
    commit
      (do
        let t ← singleTarget self
        let _ ← isAnyOf augmentedOps
        return t)
      (fun t => do
        let v ← assigned self
        return .augment (← extentFrom first) t v)
      (invalidAssignment self))]

/-! ## Imports -/

def asName : Parser (Option String) := optional do
  let _ ← symbol "as"
  return (← anyName).text

/-- A module; without another name it defines the first part of its path. -/
def importedModule : Parser String := do
  let path ← sepBy1 anyName (symbol ".")
  return (← asName).getD ((path.head?.map (·.text)).getD "")

def importName : Parser Stmt := located do
  let _ ← symbol "import"
  let names ← sepBy1 importedModule comma
  return fun e => .imports e .importStmt names

def importedMember : Parser String := do
  let t ← anyName
  return (← asName).getD t.text

def importedMembers : Parser (List String) := sepBy1 importedMember comma

def importTargets : Parser (List String) := firstOf [
  (do
    let _ ← symbol "("
    let names ← importedMembers
    let _ ← optional comma
    let _ ← symbol ")"
    return names),
  (do
    let names ← importedMembers
    notAhead comma
    return names),
  (do
    let t ← symbol "*"
    return [t.text]),
  diagnosing (do
    let _ ← importedMembers
    let _ ← comma
    let _ ← kind .newline
    raiseFurthest .invalidSyntax)]

def importFrom : Parser Stmt :=
  let dots : Parser Token := isAnyOf [".", "..."]
  (located do
    let _ ← symbol "from"
    let _ ← many dots
    let _ ← sepBy1 anyName (symbol ".")
    let _ ← symbol "import"
    let names ← importTargets
    return fun e => .imports e .importFromStmt names)
  <|> located do
    let _ ← symbol "from"
    let _ ← many1 dots
    let _ ← symbol "import"
    let names ← importTargets
    return fun e => .imports e .importFromStmt names

/-! ## Other simple statements -/

def simple (kind : StatementKind) (m : Parser (List Expr)) : Parser Stmt := located do
  let es ← m
  return fun e => .compound e kind (es.map Stmt.ofExpr)

def returnStmt (self : Rules) : Parser Stmt := simple .returnStmt do
  let _ ← symbol "return"
  return (← optional (starExpressions self)).toList

def raiseStmt (self : Rules) : Parser Stmt := simple .raiseStmt <|
  (do
    let _ ← symbol "raise"
    let a ← expression self
    let b ← optional (do let _ ← symbol "from"; expression self)
    return a :: b.toList)
  <|> do
    let _ ← symbol "raise"
    return []

def deleteStmt (self : Rules) : Parser Stmt := simple .deleteStmt <|
  (do
    let _ ← symbol "del"
    let ts ← deletionTargets { self with deletionTarget := deletionTarget self }
    ahead ((do let _ ← symbol ";"; return ()) <|> (do let _ ← kind .newline; return ()))
    return ts)
  <|> diagnosing do
    let _ ← symbol "del"
    let a ← starExpressions self
    raiseInvalidTarget .deletion a

def assertStmt (self : Rules) : Parser Stmt := simple .assertStmt do
  let _ ← symbol "assert"
  let a ← expression self
  let b ← optional (do let _ ← comma; expression self)
  return a :: b.toList

def scopeStmt (keyword : String) (kind : StatementKind) : Parser Stmt := simple kind do
  let _ ← symbol keyword
  let _ ← sepBy1 anyName comma
  return []

def wordStmt (keyword : String) (kind : StatementKind) : Parser Stmt := simple kind do
  let _ ← symbol keyword
  return []

def expressionStmt (m : Parser Expr) : Parser Stmt := located do
  let v ← m
  return fun e => .evaluate e v

def simpleStmt (self : Rules) : Parser (List Stmt) := remember .simpleStatement do
  let s ← firstOf [
    assignment self,
    expressionStmt (starExpressions self),
    returnStmt self,
    importName,
    importFrom,
    raiseStmt self,
    wordStmt "pass" .passStmt,
    deleteStmt self,
    expressionStmt (yieldExpr self),
    assertStmt self,
    wordStmt "break" .breakStmt,
    wordStmt "continue" .continueStmt,
    scopeStmt "global" .globalStmt,
    scopeStmt "nonlocal" .nonlocalStmt]
  return [s]

def simpleStmts (self : Rules) : Parser (List Stmt) :=
  (do
    let s ← simpleStmt self
    notAhead (symbol ";")
    let _ ← kind .newline
    return s)
  <|> do
    let ss ← sepBy1 (simpleStmt self) (symbol ";")
    let _ ← optional (symbol ";")
    let _ ← kind .newline
    return ss.flatten

end BacktestAudit.Syntax.Grammar
