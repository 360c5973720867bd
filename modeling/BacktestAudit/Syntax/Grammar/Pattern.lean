import BacktestAudit.Syntax.Grammar.Operation

/-!
Patterns of a match statement. They hold no calls and bind names that the analysis does not follow,
so only their form is checked.
-/
namespace BacktestAudit.Syntax.Grammar
open BacktestAudit.Source BacktestAudit.Syntax.Parser

def void (m : Parser α) : Parser Unit := do
  let _ ← m
  return ()

/-! ## Numbers, names and literals -/

def isImaginary (t : Token) : Bool := t.text.endsWith "j" || t.text.endsWith "J"

def signedNumber : Parser Unit :=
  void numberAtom <|> do
    let _ ← symbol "-"
    void numberAtom

def complexNumber : Parser Unit := do
  let _ ← optional (symbol "-")
  let real ← peek
  let _ ← numberAtom
  if isImaginary real then raiseAtToken real
  let _ ← isAnyOf ["+", "-"]
  let imaginary ← peek
  let _ ← numberAtom
  if isImaginary imaginary then return () else raiseAtToken imaginary

def literalPattern (self : Rules) : Parser Unit := firstOf [
  (do
    signedNumber
    notAhead (isAnyOf ["+", "-"])),
  complexNumber,
  void (strings self),
  void (isAnyOf ["None", "True", "False"])]

/-- A name that a pattern binds; the underscore binds nothing. -/
def captureTarget : Parser Unit := do
  notAhead (softKeyword "_")
  let _ ← anyName
  notAhead (isAnyOf [".", "(", "="])

def nameOrMember : Parser Unit := do
  let _ ← anyName
  void (many (do let _ ← symbol "."; anyName))

def memberPath : Parser Unit := do
  let _ ← anyName
  void (many1 (do let _ ← symbol "."; anyName))

/-! ## Patterns -/

def starPattern : Parser Unit := remember .starPattern <| do
  let _ ← symbol "*"
  captureTarget <|> void (softKeyword "_")

def maybeStarPattern (self : Rules) : Parser Unit := starPattern <|> self.pattern

def maybeSequence (self : Rules) : Parser Unit := void (commaList (maybeStarPattern self))

def openSequence (self : Rules) : Parser Unit := do
  maybeStarPattern self
  let _ ← comma
  void (optional (maybeSequence self))

def sequencePattern (self : Rules) : Parser Unit :=
  (do
    let _ ← symbol "["
    let _ ← optional (maybeSequence self)
    void (symbol "]"))
  <|> do
    let _ ← symbol "("
    let _ ← optional (openSequence self)
    void (symbol ")")

def keyPattern (self : Rules) : Parser Unit := do
  literalPattern self <|> memberPath
  let _ ← symbol ":"
  self.pattern

def restPattern : Parser Unit := do
  let _ ← symbol "**"
  captureTarget

def mappingPattern (self : Rules) : Parser Unit := firstOf [
  (do
    let _ ← symbol "\x7b"
    void (symbol "\x7d")),
  (do
    let _ ← symbol "\x7b"
    restPattern
    let _ ← optional comma
    void (symbol "\x7d")),
  (do
    let _ ← symbol "\x7b"
    let _ ← sepBy1 (keyPattern self) comma
    let _ ← comma
    restPattern
    let _ ← optional comma
    void (symbol "\x7d")),
  (do
    let _ ← symbol "\x7b"
    let _ ← sepBy1 (keyPattern self) comma
    let _ ← optional comma
    void (symbol "\x7d"))]

def namedPattern (self : Rules) : Parser Unit := do
  let _ ← anyName
  let _ ← symbol "="
  self.pattern

def invalidClassPattern (self : Rules) : Parser α := diagnosing do
  nameOrMember
  let _ ← symbol "("
  let _ ← optional (do
    let _ ← sepBy1 self.pattern comma
    comma)
  let _ ← sepBy1 (namedPattern self) comma
  let _ ← comma
  let first ← peek
  let _ ← sepBy1 self.pattern comma
  raiseAtToken first

def classPattern (self : Rules) : Parser Unit := firstOf [
  (do
    nameOrMember
    let _ ← symbol "("
    void (symbol ")")),
  (do
    nameOrMember
    let _ ← symbol "("
    let _ ← sepBy1 self.pattern comma
    let _ ← optional comma
    void (symbol ")")),
  (do
    nameOrMember
    let _ ← symbol "("
    let _ ← sepBy1 (namedPattern self) comma
    let _ ← optional comma
    void (symbol ")")),
  (do
    nameOrMember
    let _ ← symbol "("
    let _ ← sepBy1 self.pattern comma
    let _ ← comma
    let _ ← sepBy1 (namedPattern self) comma
    let _ ← optional comma
    void (symbol ")")),
  invalidClassPattern self]

def closedPattern (self : Rules) : Parser Unit := remember .closedPattern <| firstOf [
  literalPattern self,
  captureTarget,
  void (softKeyword "_"),
  (do
    memberPath
    notAhead (isAnyOf [".", "(", "="])),
  (do
    let _ ← symbol "("
    self.pattern
    void (symbol ")")),
  sequencePattern self,
  mappingPattern self,
  classPattern self]

def orPattern (self : Rules) : Parser Unit := void (sepBy1 (closedPattern self) (symbol "|"))

def invalidAsPattern (self : Rules) : Parser α := diagnosing <| firstOf [
  (do
    orPattern self
    let _ ← symbol "as"
    let a ← softKeyword "_"
    raiseAtToken a),
  (do
    orPattern self
    let _ ← symbol "as"
    notAhead anyName
    let a ← self.expression
    raiseAtExpr a)]

def pattern (self : Rules) : Parser Unit := firstOf [
  (do
    orPattern self
    let _ ← symbol "as"
    captureTarget),
  invalidAsPattern self,
  orPattern self]

def patterns (self : Rules) : Parser Unit := openSequence self <|> pattern self

end BacktestAudit.Syntax.Grammar
