import BacktestAudit.Syntax.Grammar.Basic

/-!
Parameters of functions and of lambda expressions. The two differ in the token that ends them and in
whether a parameter may carry a type hint.
-/
namespace BacktestAudit.Syntax.Grammar
open BacktestAudit.Source BacktestAudit.Syntax.Parser

structure Parameter where
  line : Nat
  typeHint : Option Expr
  default : Option Expr

structure Parameters where
  typeHints : List Expr
  keywordDefaults : List Expr
  defaults : List Expr

namespace Parameters

def none : Parameters := ⟨[], [], []⟩

def ofParts (positional star : List Parameter) : Parameters :=
  { typeHints := (positional ++ star).filterMap (·.typeHint)
    keywordDefaults := star.filterMap (·.default)
    defaults := positional.filterMap (·.default) }

/-- The defaults in the order in which they are followed. -/
def evaluated (p : Parameters) : List Expr := p.keywordDefaults ++ p.defaults

end Parameters

structure ParameterStyle where
  closing : String
  annotated : Bool

section
variable (self : Rules) (style : ParameterStyle)

def endOfParameter : Parser Unit :=
  (do let _ ← comma; return ()) <|> ahead (symbol style.closing)

def typeHint : Parser Expr := do
  let _ ← symbol ":"
  self.expression

def starTypeHint : Parser Expr := do
  let _ ← symbol ":"
  (located do
    let _ ← symbol "*"
    let v ← self.bitwiseOr
    return fun e => .starred e v) <|> self.expression

def parameter : Parser Parameter := do
  let t ← anyName
  let a ← if style.annotated then optional (typeHint self) else Parser.pure none
  return ⟨t.firstLine, a, none⟩

def defaultValue : Parser Expr :=
  (do
    let _ ← symbol "="
    self.expression)
  <|> diagnosing do
    let a ← symbol "="
    ahead (isAnyOf [")", ","])
    raiseAtToken a

def parameterNoDefault : Parser Parameter := do
  let p ← parameter self style
  endOfParameter style
  return p

def parameterStarTypeHint : Parser Parameter := do
  let t ← anyName
  let a ← starTypeHint self
  endOfParameter style
  return ⟨t.firstLine, some a, none⟩

def parameterWithDefault : Parser Parameter := do
  let p ← parameter self style
  let d ← defaultValue self
  endOfParameter style
  return { p with default := some d }

def parameterMaybeDefault : Parser Parameter := do
  let p ← parameter self style
  let d ← optional (defaultValue self)
  endOfParameter style
  return { p with default := d }

def slashEnd : Parser Token := do
  let t ← symbol "/"
  endOfParameter style
  return t

def slashNoDefault : Parser (List Parameter) := do
  let ps ← many1 (parameterNoDefault self style)
  let _ ← slashEnd style
  return ps

def slashWithDefault : Parser (List Parameter) := do
  let ps ← many (parameterNoDefault self style)
  let ds ← many1 (parameterWithDefault self style)
  let _ ← slashEnd style
  return ps ++ ds

def invalidKeywordParameters : Parser α := diagnosing <| firstOf [
  (do
    let _ ← symbol "**"
    let _ ← parameter self style
    let a ← symbol "="
    raiseAtToken a),
  (do
    let _ ← symbol "**"
    let _ ← parameter self style
    let _ ← comma
    let a ← parameter self style
    raiseAt a.line .invalidSyntax),
  (do
    let _ ← symbol "**"
    let _ ← parameter self style
    let _ ← comma
    let a ← isAnyOf ["*", "**", "/"]
    raiseAtToken a)]

def keywordParameters : Parser (List Parameter) :=
  invalidKeywordParameters self style <|> do
    let _ ← symbol "**"
    return [← parameterNoDefault self style]

def noDefaultOrComma : Parser Unit :=
  (do let _ ← parameterNoDefault self style; return ()) <|> (do let _ ← comma; return ())

def invalidStarParameters : Parser α := diagnosing <| firstOf [
  (do
    let a ← symbol "*"
    (do let _ ← symbol style.closing; return ()) <|> (do
      let _ ← comma
      let _ ← isAnyOf [style.closing, "**"]
      return ())
    if style.annotated then raiseAtToken a else raiseFurthest .invalidSyntax),
  (do
    let _ ← symbol "*"
    let _ ← parameter self style
    let a ← symbol "="
    raiseAtToken a),
  (do
    let _ ← symbol "*"
    noDefaultOrComma self style
    let _ ← many (parameterMaybeDefault self style)
    let a ← symbol "*"
    noDefaultOrComma self style
    raiseAtToken a)]

def starParameters : Parser (List Parameter) := firstOf [
  invalidStarParameters self style,
  (do
    let _ ← symbol "*"
    let p ← parameterNoDefault self style
    let ps ← many (parameterMaybeDefault self style)
    let ks ← optional (keywordParameters self style)
    return p :: ps ++ ks.getD []),
  (do
    if style.annotated then
      let _ ← symbol "*"
      let p ← parameterStarTypeHint self style
      let ps ← many (parameterMaybeDefault self style)
      let ks ← optional (keywordParameters self style)
      return p :: ps ++ ks.getD []
    else refuse),
  (do
    let _ ← symbol "*"
    let _ ← comma
    let ps ← many1 (parameterMaybeDefault self style)
    let ks ← optional (keywordParameters self style)
    return ps ++ ks.getD []),
  keywordParameters self style]

def invalidParameters : Parser α := diagnosing <| firstOf [
  (do
    let _ ← many (parameterNoDefault self style)
    let _ ← slashWithDefault self style <|> many1 (parameterWithDefault self style)
    let a ← parameterNoDefault self style
    raiseAt a.line .invalidSyntax),
  (do
    let _ ← many (parameterNoDefault self style)
    let a ← symbol "("
    if style.annotated then let _ ← many1 (parameterNoDefault self style)
    else let _ ← sepBy1 (parameter self style) comma
    let _ ← optional comma
    let _ ← symbol ")"
    raiseAtToken a),
  (do
    let a ← symbol "/"
    let _ ← comma
    raiseAtToken a),
  (do
    let _ ← slashNoDefault self style <|> slashWithDefault self style
    let _ ← many (parameterMaybeDefault self style)
    let a ← symbol "/"
    raiseAtToken a),
  (do
    let _ ← optional (slashNoDefault self style <|> slashWithDefault self style)
    let _ ← many (parameterMaybeDefault self style)
    let _ ← symbol "*"
    (do let _ ← comma; return ()) <|> (do let _ ← parameterNoDefault self style; return ())
    let _ ← many (parameterMaybeDefault self style)
    let a ← symbol "/"
    raiseAtToken a),
  (do
    let _ ← many1 (parameterMaybeDefault self style)
    let _ ← symbol "/"
    let a ← symbol "*"
    raiseAtToken a)]

def parameters : Parser Parameters :=
  invalidParameters self style <|> firstOf [
    (do
      let a ← slashNoDefault self style
      let b ← many (parameterNoDefault self style)
      let c ← many (parameterWithDefault self style)
      let d ← optional (starParameters self style)
      return .ofParts (a ++ b ++ c) (d.getD [])),
    (do
      let a ← slashWithDefault self style
      let b ← many (parameterWithDefault self style)
      let c ← optional (starParameters self style)
      return .ofParts (a ++ b) (c.getD [])),
    (do
      let a ← many1 (parameterNoDefault self style)
      let b ← many (parameterWithDefault self style)
      let c ← optional (starParameters self style)
      return .ofParts (a ++ b) (c.getD [])),
    (do
      let a ← many1 (parameterWithDefault self style)
      let b ← optional (starParameters self style)
      return .ofParts a (b.getD [])),
    (do return .ofParts [] (← starParameters self style))]

end

def functionParameters (self : Rules) : Parser Parameters := parameters self ⟨")", true⟩

def lambdaParameters (self : Rules) : Parser Parameters := parameters self ⟨":", false⟩

end BacktestAudit.Syntax.Grammar
