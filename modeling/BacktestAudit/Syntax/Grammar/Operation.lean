import BacktestAudit.Syntax.Grammar.Atom
import BacktestAudit.Syntax.Grammar.Parameter

/-!
Expressions with operators, from calls and subscripts up to conditionals and lambda expressions, and
what cannot be an expression.
-/
namespace BacktestAudit.Syntax.Grammar
open BacktestAudit.Source BacktestAudit.Syntax.Parser

/-! ## Chains from left to right -/

/-- Extends an expression to the right while a link matches. A link builds the longer expression
from the shorter one; both begin at the same place. -/
def chainFrom (first : Nat) (link : Parser (Expr → Extent → Expr)) : Nat → Expr → Parser Expr
  | 0, e => return e
  | n + 1, e => do
    match ← optional link with
    | some build => chainFrom first link n (build e (← extentFrom first))
    | none => return e

def chain (base : Parser Expr) (link : Parser (Expr → Extent → Expr)) : Parser Expr := do
  let first ← position
  let e ← base
  fun s p => chainFrom first link s.stream.tokens.size e s p

def memberLink : Parser (Expr → Extent → Expr) := do
  let _ ← symbol "."
  let t ← anyName
  return fun v e => .member e v t.text

def generatorLink (self : Rules) : Parser (Expr → Extent → Expr) := do
  let g ← generator self
  return fun v e => .call e v [g]

def callLink (self : Rules) : Parser (Expr → Extent → Expr) := do
  let _ ← symbol "("
  let as ← optional (arguments self)
  let _ ← symbol ")"
  return fun v e => .call e v (as.getD [])

def subscriptLink (self : Rules) : Parser (Expr → Extent → Expr) := do
  let _ ← symbol "["
  let i ← slices self
  let _ ← symbol "]"
  return fun v e => .subscript e v i

def primary (self : Rules) : Parser Expr :=
  remember .primary <| chain (atom self)
    (firstOf [memberLink, generatorLink self, callLink self, subscriptLink self])

def binaryChain (ops : List (String × BinaryOp)) (operand : Parser Expr) : Parser Expr :=
  chain operand <| firstOf <| ops.map fun (text, op) => do
    let _ ← symbol text
    let r ← operand
    return fun l e => .binary e op l r

/-! ## Operators by rank -/

def awaitPrimary (self : Rules) : Parser Expr :=
  remember .awaitPrimary <|
    (located do
      let _ ← symbol "await"
      let v ← primary self
      return fun e => .composite e .await [v])
    <|> primary self

def power (self : Rules) : Parser Expr :=
  (located do
    let b ← awaitPrimary self
    let _ ← symbol "**"
    let x ← self.factor
    return fun e => .binary e .other b x)
  <|> awaitPrimary self

def signed (self : Rules) (text : String) (op : UnaryOp) : Parser Expr := located do
  let _ ← symbol text
  let v ← self.factor
  return fun e => .unary e op v

def factor (self : Rules) : Parser Expr :=
  remember .factor <|
    firstOf [signed self "+" .plus, signed self "-" .minus, signed self "~" .invert, power self]

def term (self : Rules) : Parser Expr :=
  remember .term <| binaryChain
    [("*", .other), ("/", .other), ("//", .other), ("%", .other), ("@", .other)] (factor self)

def sum (self : Rules) : Parser Expr :=
  remember .sum <| binaryChain [("+", .add), ("-", .sub)] (term self)

def shiftExpr (self : Rules) : Parser Expr :=
  remember .shift <| binaryChain [("<<", .other), (">>", .other)] (sum self)

def bitwiseAnd (self : Rules) : Parser Expr :=
  remember .bitwiseAnd <| binaryChain [("&", .other)] (shiftExpr self)

def bitwiseXor (self : Rules) : Parser Expr :=
  remember .bitwiseXor <| binaryChain [("^", .other)] (bitwiseAnd self)

def bitwiseOr (self : Rules) : Parser Expr :=
  remember .bitwiseOr <| binaryChain [("|", .other)] (bitwiseXor self)

/-- A comparison operator; tells whether it is the membership test. -/
def comparisonOp : Parser Bool := firstOf [
  (do let _ ← symbol "=="; return false),
  (do let _ ← symbol "!="; return false),
  (do let _ ← symbol "<="; return false),
  (do let _ ← symbol "<"; return false),
  (do let _ ← symbol ">="; return false),
  (do let _ ← symbol ">"; return false),
  (do let _ ← symbol "not"; let _ ← symbol "in"; return false),
  (do let _ ← symbol "in"; return true),
  (do let _ ← symbol "is"; let _ ← symbol "not"; return false),
  (do let _ ← symbol "is"; return false)]

def comparison (self : Rules) : Parser Expr :=
  (located do
    let a ← bitwiseOr self
    let rest ← many1 do
      let op ← comparisonOp
      return (op, ← bitwiseOr self)
    let membership := (rest.head?.map (·.1)).getD false
    return fun e => .composite e (.comparison membership) (a :: rest.map (·.2)))
  <|> bitwiseOr self

def inversion (self : Rules) : Parser Expr :=
  remember .inversion <|
    (located do
      let _ ← symbol "not"
      let v ← self.inversion
      return fun e => .unary e .not v)
    <|> comparison self

def booleanChain (op : String) (operand : Parser Expr) : Parser Expr :=
  (located do
    let a ← operand
    let rest ← many1 (do let _ ← symbol op; operand)
    return fun e => .composite e .boolean (a :: rest))
  <|> operand

def conjunction (self : Rules) : Parser Expr :=
  remember .conjunction (booleanChain "and" (inversion self))

def disjunction (self : Rules) : Parser Expr :=
  remember .disjunction (booleanChain "or" (conjunction self))

/-! ## Whole expressions -/

def conditional (self : Rules) : Parser Expr := located do
  let a ← disjunction self
  let _ ← symbol "if"
  let b ← disjunction self
  let _ ← symbol "else"
  let c ← self.expression
  return fun e => .composite e .conditional [b, a, c]

def lambdaExpr (self : Rules) : Parser Expr := located do
  let _ ← symbol "lambda"
  let ps ← optional (lambdaParameters self)
  let _ ← symbol ":"
  let body ← self.expression
  return fun e => .composite e .lambda ((ps.getD .none).evaluated ++ [body])

/-- Names that were statements once. -/
def isFormerStatement : Expr → Bool
  | .name _ id _ => id == "print" || id == "exec"
  | _ => false

/-- Two expressions side by side inside brackets, or a conditional without its other branch. -/
def invalidExpression (self : Rules) : Parser α := diagnosing <| firstOf [
  (do
    notAhead <|
      (do let _ ← anyName; kind .string) <|> beginsSoftKeyword
    let a ← disjunction self
    let _ ← undiagnosed (firstOf [conditional self, disjunction self, lambdaExpr self])
    let depth : Nat ← fun s p =>
      .matched ((s.stream.tokens[p.pos - 1]?.map (·.depth)).getD 0) p
    if isFormerStatement a || depth = 0 then refuse else raiseAtExpr a),
  (do
    let a ← disjunction self
    let _ ← symbol "if"
    let _ ← disjunction self
    notAhead (isAnyOf ["else", ":"])
    raiseAtExpr a)]

def invalidFormerStatement (self : Rules) : Parser α := diagnosing do
  let a ← readName
  notAhead (symbol "(")
  let _ ← starExpressions self
  if isFormerStatement a then raiseAtExpr a else refuse

def expression (self : Rules) : Parser Expr :=
  remember .expression <| firstOf [
    invalidExpression self,
    invalidFormerStatement self,
    conditional self,
    disjunction self,
    lambdaExpr self]

/-- A binding or an assignment where neither may stand. -/
def invalidBinding (self : Rules) : Parser Unit := diagnosing <| remember .bindingFault <| firstOf [
  (do
    let a ← expression self
    let _ ← symbol ":="
    let _ ← expression self
    raiseAtExpr a),
  (do
    let a ← anyName
    let _ ← symbol "="
    let _ ← bitwiseOr self
    notAhead (isAnyOf ["=", ":="])
    raiseAtToken a),
  (do
    notAhead <| firstOf [listDisplay self, tupleDisplay self, generator self,
      constantAtom "True" .none, constantAtom "None" .none, constantAtom "False" .none]
    let a ← bitwiseOr self
    let _ ← symbol "="
    let _ ← bitwiseOr self
    notAhead (isAnyOf ["=", ":="])
    raiseAtExpr a)]

def namedExpression (self : Rules) : Parser Expr := firstOf [
  assignmentExpression self,
  (do
    invalidBinding self
    refuse),
  (do
    let v ← expression self
    notAhead (symbol ":=")
    return v)]

end BacktestAudit.Syntax.Grammar
