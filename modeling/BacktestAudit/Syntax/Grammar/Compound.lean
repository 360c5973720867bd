import BacktestAudit.Syntax.Grammar.Simple
import BacktestAudit.Syntax.Grammar.Pattern

/-!
Statements with blocks.
-/
namespace BacktestAudit.Syntax.Grammar
open BacktestAudit.Source BacktestAudit.Syntax.Parser

/-! ## Blocks -/

def newline : Parser Token := kind .newline

/-- A line that has to open a block and does not. -/
def missingBlock : Parser α := do
  let _ ← newline
  notAhead (kind .indent)
  raiseFurthest .missingBlock

def block (self : Rules) : Parser (List Stmt) := remember .block <| firstOf [
  (do
    let _ ← newline
    let _ ← kind .indent
    let ss ← self.statements
    let _ ← kind .dedent
    return ss),
  simpleStmts self,
  diagnosing missingBlock]

/-- A header that lacks its colon at the end of the line. -/
def missingColon : Parser α := do
  let _ ← newline
  raiseFurthest .invalidSyntax

def colonWithoutBlock : Parser α := do
  let _ ← symbol ":"
  missingBlock

def invalidHeader (header : Parser Unit) : Parser α := diagnosing <| firstOf [
  (do
    header
    missingColon),
  (do
    header
    colonWithoutBlock)]

def elseBlock (self : Rules) : Parser (List Stmt) :=
  (diagnosing do
    let _ ← symbol "else"
    colonWithoutBlock)
  <|> do
    let _ ← symbol "else"
    let _ ← forced ":"
    block self

/-! ## Conditions and loops -/

/-- The branches of a condition after its first word. -/
def branches (self : Rules) (word : String) : Parser Stmt :=
  let header : Parser Expr := do
    let _ ← symbol word
    namedExpression self
  invalidHeader (void header) <|> located do
    let test ← header
    let _ ← symbol ":"
    let body ← block self
    let other ← self.elifStmt <|> (do return (← optional (elseBlock self)).getD [])
    return fun e => .compound e .ifStmt (.ofExpr test :: body ++ other)

def ifStmt (self : Rules) : Parser Stmt := branches self "if"

def elifStmt (self : Rules) : Parser (List Stmt) := do
  return [← branches self "elif"]

def whileStmt (self : Rules) : Parser Stmt :=
  let header : Parser Expr := do
    let _ ← symbol "while"
    namedExpression self
  invalidHeader (void header) <|> located do
    let test ← header
    let _ ← symbol ":"
    let body ← block self
    let other ← optional (elseBlock self)
    return fun e => .compound e .whileLoop (.ofExpr test :: body ++ other.getD [])

def forLoop (self : Rules) (keyword : Parser Token) (kind : StatementKind)
    (other : Parser Stmt) : Parser Stmt := do
  let first ← position
  commit
    (do
      let _ ← keyword
      let t ← starTargets self
      let _ ← symbol "in"
      return t)
    (fun t => do
      let iterable ← starExpressions self
      let _ ← symbol ":"
      let body ← block self
      let last ← optional (elseBlock self)
      return .compound (← extentFrom first) kind
        (.ofExpr t :: .ofExpr iterable :: body ++ last.getD []))
    other

def asyncFor : Parser Token := do
  let _ ← symbol "async"
  symbol "for"

def forStmt (self : Rules) : Parser Stmt :=
  invalidHeader (do
    let _ ← optional (symbol "async")
    let _ ← symbol "for"
    let _ ← starTargets self
    let _ ← symbol "in"
    void (starExpressions self))
  <|> forLoop self (symbol "for") .forLoop
    (forLoop self asyncFor .asyncForLoop (invalidForTarget self))

/-! ## Contexts -/

def withItem (self : Rules) : Parser (List Expr) := firstOf [
  (do
    let v ← expression self
    let _ ← symbol "as"
    let t ← starTarget self
    ahead (isAnyOf [",", ")", ":"])
    return [v, t]),
  diagnosing (do
    let _ ← expression self
    let _ ← symbol "as"
    let a ← expression self
    ahead (isAnyOf [",", ")", ":"])
    raiseInvalidTarget .assignment a),
  (do return [← expression self])]

def withKeyword : Parser StatementKind :=
  (do
    let _ ← symbol "with"
    return .withStmt)
  <|> do
    let _ ← symbol "async"
    let _ ← symbol "with"
    return .asyncWithStmt

def namedItem (self : Rules) (item : Parser Expr) : Parser Unit := do
  let _ ← item
  void (optional (do let _ ← symbol "as"; starTarget self))

def withHeader (self : Rules) : Parser Unit := do
  let _ ← optional (symbol "async")
  let _ ← symbol "with"
  void (sepBy1 (namedItem self (expression self)) comma)

def withBracketHeader (self : Rules) : Parser Unit := do
  let _ ← optional (symbol "async")
  let _ ← symbol "with"
  let _ ← symbol "("
  let _ ← sepBy1 (namedItem self (expressions self)) comma
  let _ ← optional comma
  void (symbol ")")

def withStmt (self : Rules) : Parser Stmt := firstOf [
  diagnosing (firstOf [
    (do withHeader self; colonWithoutBlock),
    (do withBracketHeader self; colonWithoutBlock)]),
  (located do
    let kind ← withKeyword
    let _ ← symbol "("
    let items ← sepBy1 (withItem self) comma
    let _ ← optional comma
    let _ ← symbol ")"
    let _ ← symbol ":"
    let body ← block self
    return fun e => .compound e kind (items.flatten.map Stmt.ofExpr ++ body)),
  (located do
    let kind ← withKeyword
    let items ← sepBy1 (withItem self) comma
    let _ ← symbol ":"
    let body ← block self
    return fun e => .compound e kind (items.flatten.map Stmt.ofExpr ++ body)),
  diagnosing (firstOf [
    (do withHeader self; missingColon),
    (do withBracketHeader self; missingColon)])]

/-! ## Exceptions -/

def handlerName : Parser Unit := void (optional (do let _ ← symbol "as"; anyName))

def invalidHandler (self : Rules) : Parser α := diagnosing <| firstOf [
  (do
    let _ ← symbol "except"
    let _ ← optional (symbol "*")
    let a ← expression self
    let _ ← comma
    let _ ← expressions self
    handlerName
    let _ ← symbol ":"
    raiseAtExpr a),
  (do
    let _ ← symbol "except"
    let _ ← optional (symbol "*")
    let _ ← expression self
    handlerName
    missingColon),
  (do
    let _ ← symbol "except"
    missingColon),
  (do
    let _ ← symbol "except"
    let _ ← symbol "*"
    void newline <|> void (symbol ":")
    raiseFurthest .invalidSyntax)]

def handler (self : Rules) : Parser (List Stmt) := firstOf [
  diagnosing (firstOf [
    (do
      let _ ← symbol "except"
      let _ ← expression self
      handlerName
      colonWithoutBlock),
    (do
      let _ ← symbol "except"
      colonWithoutBlock)]),
  (do
    let _ ← symbol "except"
    let v ← expression self
    handlerName
    let _ ← symbol ":"
    return .ofExpr v :: (← block self)),
  (do
    let _ ← symbol "except"
    let _ ← symbol ":"
    block self),
  invalidHandler self]

def groupHandler (self : Rules) : Parser (List Stmt) := firstOf [
  diagnosing (do
    let _ ← symbol "except"
    let _ ← symbol "*"
    let _ ← expression self
    handlerName
    colonWithoutBlock),
  (do
    let _ ← symbol "except"
    let _ ← symbol "*"
    let v ← expression self
    handlerName
    let _ ← symbol ":"
    return .ofExpr v :: (← block self)),
  invalidHandler self]

def finallyBlock (self : Rules) : Parser (List Stmt) :=
  (diagnosing do
    let _ ← symbol "finally"
    colonWithoutBlock)
  <|> do
    let _ ← symbol "finally"
    let _ ← forced ":"
    block self

def invalidTry (self : Rules) : Parser α := diagnosing <| firstOf [
  (do
    let _ ← symbol "try"
    colonWithoutBlock),
  (do
    let _ ← symbol "try"
    let _ ← symbol ":"
    let _ ← block self
    notAhead (isAnyOf ["except", "finally"])
    raiseFurthest .invalidSyntax),
  (do
    let _ ← symbol "try"
    let _ ← symbol ":"
    let _ ← many (block self)
    (do
      let _ ← many1 (handler self)
      void (groupHandler self))
    <|> (do
      let _ ← many1 (groupHandler self)
      void (handler self))
    let _ ← many (block self)
    raiseFurthest .invalidSyntax)]

def tryWith (self : Rules) (kind : StatementKind) (handlers : Parser (List Stmt)) : Parser Stmt :=
  located do
    let _ ← symbol "try"
    let _ ← forced ":"
    let body ← block self
    let rest ← handlers
    return fun e => .compound e kind (body ++ rest)

def handled (self : Rules) (one : Parser (List Stmt)) : Parser (List Stmt) := do
  let hs ← many1 one
  let other ← optional (elseBlock self)
  let last ← optional (finallyBlock self)
  return hs.flatten ++ other.getD [] ++ last.getD []

def tryStmt (self : Rules) : Parser Stmt := firstOf [
  invalidTry self,
  tryWith self .tryStmt (finallyBlock self),
  tryWith self .tryStmt (handled self (handler self)),
  tryWith self .tryGroupStmt (handled self (groupHandler self))]

/-! ## Matches -/

def subject (self : Rules) : Parser Expr :=
  (located do
    let a ← starNamedExpression self
    let _ ← comma
    let rest ← optional (starNamedExpressions self)
    return fun e => .tuple e (a :: rest.getD []))
  <|> namedExpression self

def guard (self : Rules) : Parser Expr := do
  let _ ← symbol "if"
  namedExpression self

def caseBlock (self : Rules) : Parser (List Stmt) :=
  let header : Parser (Option Expr) := do
    let _ ← softKeyword "case"
    patterns { self with pattern := pattern self }
    optional (guard self)
  invalidHeader (void header) <|> do
    let g ← header
    let _ ← symbol ":"
    return g.toList.map Stmt.ofExpr ++ (← block self)

def matchStmt (self : Rules) : Parser Stmt :=
  let header : Parser Expr := do
    let _ ← softKeyword "match"
    subject self
  (located do
    let v ← header
    let _ ← symbol ":"
    let _ ← newline
    let _ ← kind .indent
    let cases ← many1 (caseBlock self)
    let _ ← kind .dedent
    return fun e => .compound e .matchStmt (.ofExpr v :: cases.flatten))
  <|> invalidHeader (void header)

/-! ## Functions and classes -/

def decorators (self : Rules) : Parser (List Expr) := many1 do
  let _ ← symbol "@"
  let v ← namedExpression self
  let _ ← newline
  return v

def functionKeyword : Parser StatementKind :=
  (do
    let _ ← symbol "def"
    return .functionDef)
  <|> do
    let _ ← symbol "async"
    let _ ← symbol "def"
    return .asyncFunctionDef

def invalidFunction (self : Rules) : Parser α := diagnosing do
  let _ ← optional (symbol "async")
  let _ ← symbol "def"
  let _ ← anyName
  let _ ← symbol "("
  let _ ← optional (functionParameters self)
  let _ ← symbol ")"
  let _ ← optional (do let _ ← symbol "->"; expression self)
  colonWithoutBlock

def functionDef (self : Rules) (decorations : List Expr) : Parser Stmt :=
  invalidFunction self <|> located do
    let kind ← functionKeyword
    let name ← anyName
    let _ ← forced "("
    let ps := (← optional (functionParameters self)).getD .none
    let _ ← symbol ")"
    let result ← optional (do let _ ← symbol "->"; expression self)
    let _ ← forced ":"
    let body ← block self
    return fun e => .define e kind name.text (ps.typeHints ++ ps.evaluated)
      (body ++ decorations.map Stmt.ofExpr ++ result.toList.map Stmt.ofExpr)

def classHeader (self : Rules) : Parser (String × List Expr) := do
  let _ ← symbol "class"
  let name ← anyName
  let as ← optional do
    let _ ← symbol "("
    let as ← optional (arguments self)
    let _ ← symbol ")"
    return as.getD []
  return (name.text, as.getD [])

def classDef (self : Rules) (decorations : List Expr) : Parser Stmt :=
  invalidHeader (void (classHeader self)) <|> located do
    let (name, as) ← classHeader self
    let _ ← symbol ":"
    let body ← block self
    return fun e => .define e .classDef name (as.filter (·.isKeyword))
      ((Expr.positional as).map Stmt.ofExpr ++ body ++ decorations.map Stmt.ofExpr)

def decorated (self : Rules) (definition : List Expr → Parser Stmt) : Parser Stmt :=
  (do
    let ds ← decorators self
    definition ds)
  <|> definition []

/-! ## Statements -/

def compoundStmt (self : Rules) : Parser Stmt := firstOf [
  (do
    ahead (isAnyOf ["def", "@", "async"])
    decorated self (functionDef self)),
  (do
    ahead (symbol "if")
    ifStmt self),
  (do
    ahead (isAnyOf ["class", "@"])
    decorated self (classDef self)),
  (do
    ahead (isAnyOf ["with", "async"])
    withStmt self),
  (do
    ahead (isAnyOf ["for", "async"])
    forStmt self),
  (do
    ahead (symbol "try")
    tryStmt self),
  (do
    ahead (symbol "while")
    whileStmt self),
  matchStmt self]

def statements (self : Rules) : Parser (List Stmt) := do
  let ss ← many1 ((do return [← compoundStmt self]) <|> simpleStmts self)
  return ss.flatten

def program (self : Rules) : Parser (List Stmt) := do
  let ss ← optional (statements self)
  let _ ← kind .finish
  return ss.getD []

end BacktestAudit.Syntax.Grammar
