import BacktestAudit.Syntax.Grammar.Display
import BacktestAudit.Syntax.StringLiteral

/-!
Atoms: names, constants, strings and everything in brackets.
-/
namespace BacktestAudit.Syntax.Grammar
open BacktestAudit.Source BacktestAudit.Syntax.Parser

def numberAtom : Parser Expr := located do
  let t ← kind .number
  match Numeral.value? t.text with
  | some v => return fun e => .constant e v
  | none => raiseAtToken t

/-! ## Strings -/

/-- The expressions of a formatted string are programs of their own, in brackets. -/
def fieldStream (field : List Glyph) : TokenStream :=
  let start := field.headD ⟨' ', 0, 0, 1⟩
  let stop := field.getLastD start
  let opening : Glyph := ⟨'(', start.start - 1, start.start, start.line⟩
  let closing : Glyph := ⟨')', stop.stop, stop.stop + 1, stop.line⟩
  let ending : Glyph := ⟨'\n', stop.stop + 1, stop.stop + 1, stop.line⟩
  Lexer.ofGlyphs ([opening] ++ field ++ [closing, ending])

def fieldExpression (self : Rules) (field : List Glyph) : Parser Expr :=
  if field.all (StringLiteral.isAsciiBlank ·.char) then raiseFurthest .malformedString
  else
    match (fieldStream field).parse (starExpressions self) with
    | .ok v => return v
    | .error fault => fun _ p => .stopped ⟨fault, fault.cause = .nestingTooDeep, p.reached⟩

/-- The expressions of one string of a run; plain strings have none. -/
def stringFields (self : Rules) (t : Token) : Parser (List Expr) := do
  let l := StringLiteral.ofLexeme t.lexeme
  if l.isBytes && l.body.any (128 ≤ ·.char.toNat) then raiseAtToken t
  else if l.isFormatted then
    let fields := l.fields
    let es ← fields.expressions.mapM (fieldExpression self)
    if fields.wellFormed then return es else raiseFurthest .malformedString
  else if (l.codes? l.body).isNone then raiseFurthest .malformedString
  else return []

def joinedCodes (ls : List StringLiteral) : List Nat :=
  (ls.map fun l => (l.codes? l.body).getD []).flatten

/-- Adjacent strings are one constant, unless one of them is formatted. -/
def strings (self : Rules) : Parser Expr :=
  remember .strings <| located do
    let ts ← many1 (kind .string)
    let ls := ts.map fun t => StringLiteral.ofLexeme t.lexeme
    let mixed := ls.any (·.isBytes) && !ls.all (·.isBytes)
    if mixed then raiseFurthest .malformedString
    else
      let fields ← ts.mapM (stringFields self)
      if ls.any (·.isFormatted) then return fun e => .composite e .formatted fields.flatten
      else if ls.all (·.isBytes) then
        return fun e => .constant e (.bytes ((joinedCodes ls).map UInt8.ofNat))
      else
        return fun e =>
          .constant e (.str (String.ofList ((joinedCodes ls).map StringLiteral.charOfCode)))

/-! ## Atoms -/

def constantAtom (text : String) (value : Literal) : Parser Expr := located do
  let _ ← symbol text
  return fun e => .constant e value

def atom (self : Rules) : Parser Expr := firstOf [
  readName,
  constantAtom "True" (.bool true),
  constantAtom "False" (.bool false),
  constantAtom "None" .none,
  (do
    ahead (kind .string)
    strings self),
  numberAtom,
  (do
    ahead (symbol "(")
    firstOf [tupleDisplay self, group self, generator self]),
  (do
    ahead (symbol "[")
    firstOf [listDisplay self, listComprehension self]),
  (do
    ahead (symbol "\x7b")
    firstOf [dictDisplay self, setDisplay self, dictComprehension self, setComprehension self]),
  constantAtom "..." .ellipsis]

/-! ## Subscripts -/

def sliceItem (self : Rules) : Parser Expr :=
  (located do
    let lower ← optional self.expression
    let _ ← symbol ":"
    let upper ← optional self.expression
    let step ← optional do
      let _ ← symbol ":"
      optional self.expression
    let step := step.join
    return fun e =>
      .composite e (.slice lower.isSome upper.isSome step.isSome)
        (lower.toList ++ upper.toList ++ step.toList))
  <|> self.namedExpression

def slices (self : Rules) : Parser Expr :=
  (do
    let v ← sliceItem self
    notAhead comma
    return v)
  <|> located do
    let items ← commaList (sliceItem self <|> starredExpression self)
    return fun e => .tuple e items

end BacktestAudit.Syntax.Grammar
