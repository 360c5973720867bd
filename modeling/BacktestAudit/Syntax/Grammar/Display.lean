import BacktestAudit.Syntax.Grammar.Basic

/-!
Expressions with commas, displays in brackets, comprehensions, and the arguments of calls.
-/
namespace BacktestAudit.Syntax.Grammar
open BacktestAudit.Source BacktestAudit.Syntax.Parser

/-! ## Lists of expressions -/

def starBitwise (self : Rules) : Parser Expr := located do
  let _ ← symbol "*"
  let v ← self.bitwiseOr
  return fun e => .starred e v

def starExpression (self : Rules) : Parser Expr :=
  remember .starExpression (starBitwise self <|> self.expression)

def starExpressions (self : Rules) : Parser Expr := tupleOrItem (starExpression self)

def expressions (self : Rules) : Parser Expr := tupleOrItem self.expression

def starNamedExpression (self : Rules) : Parser Expr :=
  starBitwise self <|> self.namedExpression

def starNamedExpressions (self : Rules) : Parser (List Expr) :=
  commaList (starNamedExpression self)

def starredExpression (self : Rules) : Parser Expr := located do
  let _ ← symbol "*"
  let v ← self.expression
  return fun e => .starred e v

def assignmentExpression (self : Rules) : Parser Expr := located do
  let target ← boundName
  let _ ← symbol ":="
  let v ← self.expression
  return fun e => .composite e .binding [target, v]

def yieldExpr (self : Rules) : Parser Expr :=
  (located do
    let _ ← symbol "yield"
    let _ ← symbol "from"
    let v ← self.expression
    return fun e => .composite e .yield [v])
  <|> (located do
    let _ ← symbol "yield"
    let v ← optional (starExpressions self)
    return fun e => .composite e .yield v.toList)

/-- An expression that is not the name of a binding. -/
def unboundExpression (self : Rules) : Parser Expr := do
  let v ← self.expression
  notAhead (symbol ":=")
  return v

/-! ## Comprehensions -/

def invalidForTarget (self : Rules) : Parser α := diagnosing do
  let _ ← optional (symbol "async")
  let _ ← symbol "for"
  let target ← starExpressions self
  raiseInvalidTarget .loop target

def forIfClause (self : Rules) : Parser (List Expr) :=
  let clause (keyword : Parser Token) (other : Parser (List Expr)) : Parser (List Expr) :=
    commit
      (do
        let _ ← keyword
        let target ← self.starTargets
        let _ ← symbol "in"
        return target)
      (fun target => do
        let iterable ← self.disjunction
        let conditions ← many (do let _ ← symbol "if"; self.disjunction)
        return target :: iterable :: conditions)
      other
  clause (do let _ ← symbol "async"; symbol "for")
    (clause (symbol "for") (invalidForTarget self))

def forIfClauses (self : Rules) : Parser (List Expr) := do
  return (← many1 (forIfClause self)).flatten

/-- Misplaced stars and missing brackets in front of a comprehension. -/
def invalidComprehension (self : Rules) : Parser α := diagnosing <| firstOf [
  (do
    let _ ← isAnyOf ["[", "(", "\x7b"]
    let a ← starredExpression self
    let _ ← forIfClauses self
    raiseAtExpr a),
  (do
    let _ ← isAnyOf ["[", "\x7b"]
    let a ← starNamedExpression self
    let _ ← comma
    let _ ← starNamedExpressions self
    let _ ← forIfClauses self
    raiseAtExpr a),
  (do
    let _ ← isAnyOf ["[", "\x7b"]
    let a ← starNamedExpression self
    let _ ← comma
    let _ ← forIfClauses self
    raiseAtExpr a)]

def comprehension (opening closing : String) (form : Form) (element : Parser (List Expr))
    (self : Rules) : Parser Expr := located do
  let _ ← symbol opening
  let parts ← element
  let clauses ← forIfClauses self
  let _ ← symbol closing
  return fun e => .composite e form (parts ++ clauses)

def generator (self : Rules) : Parser Expr :=
  comprehension "(" ")" .generator
    (do return [← assignmentExpression self <|> unboundExpression self]) self
  <|> invalidComprehension self

def listComprehension (self : Rules) : Parser Expr :=
  comprehension "[" "]" .listComprehension (do return [← self.namedExpression]) self
  <|> invalidComprehension self

def setComprehension (self : Rules) : Parser Expr :=
  comprehension "\x7b" "\x7d" .setComprehension (do return [← self.namedExpression]) self
  <|> invalidComprehension self

def keyAndValue (self : Rules) : Parser (Expr × Expr) := do
  let k ← self.expression
  let _ ← symbol ":"
  let v ← self.expression
  return (k, v)

def invalidDictComprehension (self : Rules) : Parser α := diagnosing do
  let _ ← symbol "\x7b"
  let a ← symbol "**"
  let _ ← self.bitwiseOr
  let _ ← forIfClauses self
  let _ ← symbol "\x7d"
  raiseAtToken a

def dictComprehension (self : Rules) : Parser Expr :=
  comprehension "\x7b" "\x7d" .dictComprehension
    (do let (k, v) ← keyAndValue self; return [k, v]) self
  <|> invalidDictComprehension self

/-! ## Displays -/

def listDisplay (self : Rules) : Parser Expr := located do
  let _ ← symbol "["
  let es ← optional (starNamedExpressions self)
  let _ ← symbol "]"
  return fun e => .list e (es.getD [])

def tupleDisplay (self : Rules) : Parser Expr := located do
  let _ ← symbol "("
  let es ← optional do
    let a ← starNamedExpression self
    let _ ← comma
    let rest ← optional (starNamedExpressions self)
    return a :: rest.getD []
  let _ ← symbol ")"
  return fun e => .tuple e (es.getD [])

def setDisplay (self : Rules) : Parser Expr := located do
  let _ ← symbol "\x7b"
  let es ← starNamedExpressions self
  let _ ← symbol "\x7d"
  return fun e => .set e es

def invalidGroup (self : Rules) : Parser α := diagnosing <| firstOf [
  (do
    let _ ← symbol "("
    let a ← starredExpression self
    let _ ← symbol ")"
    raiseAtExpr a),
  (do
    let _ ← symbol "("
    let a ← symbol "**"
    let _ ← self.expression
    let _ ← symbol ")"
    raiseAtToken a)]

/-- A bracketed expression is the expression itself. -/
def group (self : Rules) : Parser Expr :=
  (do
    let _ ← symbol "("
    let v ← yieldExpr self <|> self.namedExpression
    let _ ← symbol ")"
    return v)
  <|> invalidGroup self

/-- An entry of a dictionary display; an unpacked mapping has no key. -/
def dictEntry (self : Rules) : Parser (Option Expr × Expr) :=
  (do
    let _ ← symbol "**"
    return (none, ← self.bitwiseOr))
  <|> (do
    let (k, v) ← keyAndValue self
    return (some k, v))

def starredDictValue (self : Rules) : Parser α := do
  let _ ← self.expression
  let _ ← symbol ":"
  let a ← symbol "*"
  let _ ← self.bitwiseOr
  raiseAtToken a

def missingDictValue (self : Rules) : Parser α := do
  let _ ← self.expression
  let a ← symbol ":"
  ahead (isAnyOf ["\x7d", ","])
  raiseAtToken a

def invalidDictEntry (self : Rules) : Parser α := firstOf [
  (do
    let a ← self.expression
    notAhead (symbol ":")
    raiseAtExpr a),
  starredDictValue self,
  missingDictValue self]

/-- Entries that no dictionary has; they are told apart in every parse. -/
def invalidDictEntries (self : Rules) : Parser α := firstOf [
  (do
    let _ ← sepBy1 (dictEntry self) comma
    let _ ← comma
    invalidDictEntry self),
  starredDictValue self,
  missingDictValue self]

def dictDisplay (self : Rules) : Parser Expr :=
  (located do
    let _ ← symbol "\x7b"
    let entries := (← optional (commaList (dictEntry self))).getD []
    let _ ← symbol "\x7d"
    let keys := entries.filterMap (·.1)
    let values := entries.map (·.2)
    return fun e =>
      if keys.length = values.length then .dict e keys values
      else .composite e .unpackedDict (keys ++ values))
  <|> (do
    let _ ← symbol "\x7b"
    invalidDictEntries self)

/-! ## Arguments -/

def namedArgument (self : Rules) : Parser Expr := located do
  let t ← anyName
  let _ ← symbol "="
  let v ← self.expression
  return fun e => .keyword e (some t.text) v

def unpackedArgument (self : Rules) : Parser Expr := located do
  let _ ← symbol "**"
  let v ← self.expression
  return fun e => .keyword e none v

def invalidKeyword (self : Rules) : Parser α := diagnosing <| firstOf [
  (do
    let a ← isAnyOf ["True", "False", "None"]
    let _ ← symbol "="
    raiseAtToken a),
  (do
    let a ← anyName
    let _ ← symbol "="
    let _ ← self.expression
    let _ ← forIfClauses self
    raiseAtToken a),
  (do
    notAhead (do let _ ← anyName; symbol "=")
    let a ← self.expression
    let _ ← symbol "="
    raiseAtExpr a)]

def keywordOrStarred (self : Rules) : Parser Expr :=
  firstOf [invalidKeyword self, namedArgument self, starredExpression self]

def keywordOrUnpacked (self : Rules) : Parser Expr :=
  firstOf [invalidKeyword self, namedArgument self, unpackedArgument self]

def keywords (self : Rules) : Parser (List Expr) := firstOf [
  (do
    let starred ← sepBy1 (keywordOrStarred self) comma
    let _ ← comma
    let unpacked ← sepBy1 (keywordOrUnpacked self) comma
    return starred ++ unpacked),
  sepBy1 (keywordOrStarred self) comma,
  sepBy1 (keywordOrUnpacked self) comma]

def inPlace (self : Rules) : Parser Expr :=
  starredExpression self <|> do
    let v ← assignmentExpression self <|> unboundExpression self
    notAhead (symbol "=")
    return v

/-- The arguments of a call, those in place first. -/
def someArguments (self : Rules) : Parser (List Expr) :=
  (do
    let first ← sepBy1 (inPlace self) comma
    let rest ← optional (do let _ ← comma; keywords self)
    let all := first ++ rest.getD []
    return all.filter (!·.isKeyword) ++ all.filter (·.isKeyword))
  <|> do
    let all ← keywords self
    return all.filter (!·.isKeyword) ++ all.filter (·.isKeyword)

def invalidArguments (self : Rules) : Parser α := diagnosing <| firstOf [
  (do
    let first ← peek
    let _ ← someArguments self
    let _ ← comma
    let _ ← symbol "*"
    raiseAtToken first),
  (do
    let a ← self.expression
    let _ ← forIfClauses self
    let _ ← comma
    let _ ← optional (someArguments self <|> do
      let _ ← self.expression
      forIfClauses self)
    raiseAtExpr a),
  (do
    let a ← anyName
    let _ ← symbol "="
    let _ ← self.expression
    let _ ← forIfClauses self
    raiseAtToken a),
  (do
    let arguments ← someArguments self
    let _ ← forIfClauses self
    match (Expr.positional arguments).reverse with
    | last :: _ :: _ => raiseAtExpr last
    | _ => refuse),
  (do
    let _ ← someArguments self
    let _ ← comma
    let a ← self.expression
    let _ ← forIfClauses self
    raiseAtExpr a),
  (do
    let _ ← someArguments self
    let _ ← comma
    let _ ← someArguments self
    raiseFurthest .invalidSyntax)]

def arguments (self : Rules) : Parser (List Expr) :=
  remember .arguments <|
    (do
      let all ← someArguments self
      let _ ← optional comma
      ahead (symbol ")")
      return all)
    <|> invalidArguments self

end BacktestAudit.Syntax.Grammar
