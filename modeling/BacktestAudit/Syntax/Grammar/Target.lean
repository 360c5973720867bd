import BacktestAudit.Syntax.Grammar.Operation

/-!
What can be assigned to, looped over or deleted: names, members, subscripts and displays of these.
-/
namespace BacktestAudit.Syntax.Grammar
open BacktestAudit.Source BacktestAudit.Syntax.Parser

/-- A base goes on when a call, a subscript or a member follows. -/
def goesOn : Parser Token := isAnyOf ["(", "[", "."]

def targetPrimary (self : Rules) : Parser Expr :=
  let ongoing (link : Parser (Expr → Extent → Expr)) : Parser (Expr → Extent → Expr) := do
    let build ← link
    ahead goesOn
    return build
  remember .targetPrimary <| chain
    (do
      let v ← atom self
      ahead goesOn
      return v)
    (firstOf [ongoing memberLink, ongoing (subscriptLink self), ongoing (generatorLink self),
      ongoing (callLink self)])

def partTarget (self : Rules) : Parser Expr :=
  (located do
    let v ← targetPrimary self
    let _ ← symbol "."
    let t ← anyName
    notAhead goesOn
    return fun e => .member e v t.text)
  <|> located do
    let v ← targetPrimary self
    let _ ← symbol "["
    let i ← slices self
    let _ ← symbol "]"
    notAhead goesOn
    return fun e => .subscript e v i

/-! ## Targets of assignments and loops -/

def starAtom (self : Rules) : Parser Expr := firstOf [
  boundName,
  (do
    let _ ← symbol "("
    let v ← self.starAtomTarget
    let _ ← symbol ")"
    return v),
  (located do
    let _ ← symbol "("
    let es ← optional <|
      (do
        let a ← self.starTarget
        let rest ← many1 (do let _ ← comma; self.starTarget)
        let _ ← optional comma
        return a :: rest)
      <|> do
        let a ← self.starTarget
        let _ ← comma
        return [a]
    let _ ← symbol ")"
    return fun e => .tuple e (es.getD [])),
  (located do
    let _ ← symbol "["
    let es ← optional (commaList self.starTarget)
    let _ ← symbol "]"
    return fun e => .list e (es.getD []))]

def starAtomTarget (self : Rules) : Parser Expr :=
  remember .starAtomTarget (partTarget self <|> starAtom self)

def starTarget (self : Rules) : Parser Expr :=
  remember .starTarget <|
    (located do
      let _ ← symbol "*"
      notAhead (symbol "*")
      let v ← self.starTarget
      return fun e => .starred e v)
    <|> starAtomTarget self

def starTargets (self : Rules) : Parser Expr :=
  (do
    let v ← starTarget self
    notAhead comma
    return v)
  <|> located do
    let a ← starTarget self
    let rest ← many (do let _ ← comma; starTarget self)
    let _ ← optional comma
    return fun e => .tuple e (a :: rest)

def singleTarget (self : Rules) : Parser Expr := firstOf [
  partTarget self,
  boundName,
  (do
    let _ ← symbol "("
    let v ← self.singleTarget
    let _ ← symbol ")"
    return v)]

/-! ## Targets of deletions -/

def deletionTargets (self : Rules) : Parser (List Expr) := commaList self.deletionTarget

def deletionAtom (self : Rules) : Parser Expr := firstOf [
  boundName,
  (do
    let _ ← symbol "("
    let v ← self.deletionTarget
    let _ ← symbol ")"
    return v),
  (located do
    let _ ← symbol "("
    let es ← optional (deletionTargets self)
    let _ ← symbol ")"
    return fun e => .tuple e (es.getD [])),
  (located do
    let _ ← symbol "["
    let es ← optional (deletionTargets self)
    let _ ← symbol "]"
    return fun e => .list e (es.getD []))]

def deletionTarget (self : Rules) : Parser Expr :=
  remember .deletionTarget (partTarget self <|> deletionAtom self)

end BacktestAudit.Syntax.Grammar
