import BacktestAudit.Decimal.Notation
import BacktestAudit.Syntax.Lexer

/-!
String literals: their marks, their escapes, and the expressions inside formatted strings.
-/
namespace BacktestAudit.Syntax
open BacktestAudit.Decimal

structure StringLiteral where
  isRaw : Bool
  isBytes : Bool
  isFormatted : Bool
  body : List Glyph

namespace StringLiteral

def ofLexeme (lexeme : List Glyph) : StringLiteral :=
  let mark := lexeme.takeWhile (·.char.isAlpha)
  let quotes := lexeme.drop mark.length
  let size := match Glyph.chars (quotes.take 3) with
    | [a, b, c] => if a = b ∧ b = c then 3 else 1
    | _ => 1
  let lower := (Glyph.chars mark).map Char.toLower
  { isRaw := 'r' ∈ lower, isBytes := 'b' ∈ lower, isFormatted := 'f' ∈ lower
    body := (quotes.drop size).take (quotes.length - 2 * size) }

/-! ## Escapes -/

def simpleEscape? (c : Char) : Option Nat :=
  [('\\', 92), ('\'', 39), ('"', 34), ('a', 7), ('b', 8), ('f', 12), ('n', 10), ('r', 13), ('t', 9),
   ('v', 11)].lookup c

def hexDigits? (n : Nat) (cs : List Char) : Option Nat :=
  let digits := cs.take n
  if digits.length = n ∧ digits.all Lexer.isHexDigit then some (valueIn 16 digits) else none

/-- A character by its code; codes that are no characters of their own stand for a replacement. -/
def charOfCode (code : Nat) : Char :=
  if code.isValidChar then Char.ofNat code else Char.ofNat 0xFFFD

/-- The codes that a literal denotes; `fuel` bounds the number of characters. An unknown escape
stands for itself. Names of characters are not looked up: each stands for a replacement. -/
def unescape (isBytes : Bool) : Nat → List Char → Option (List Nat)
  | 0, _ => some []
  | _, [] => some []
  | fuel + 1, '\\' :: c :: rest =>
    if c = '\n' then unescape isBytes fuel rest
    else match simpleEscape? c with
      | some code => (unescape isBytes fuel rest).map (code :: ·)
      | none =>
        if Lexer.isOctalDigit c then
          let digits := (c :: rest).take 3 |>.takeWhile Lexer.isOctalDigit
          let code := valueIn 8 digits
          (unescape isBytes fuel ((c :: rest).drop digits.length)).map
            ((if isBytes then code % 256 else code) :: ·)
        else if c = 'x' then do
          let code ← hexDigits? 2 rest
          (unescape isBytes fuel (rest.drop 2)).map (code :: ·)
        else if isBytes then (unescape isBytes fuel rest).map ('\\'.toNat :: c.toNat :: ·)
        else if c = 'u' then do
          let code ← hexDigits? 4 rest
          (unescape isBytes fuel (rest.drop 4)).map (code :: ·)
        else if c = 'U' then do
          let code ← hexDigits? 8 rest
          if 0x10FFFF < code then none
          else (unescape isBytes fuel (rest.drop 8)).map (code :: ·)
        else if c = 'N' then
          match rest with
          | '\x7b' :: more =>
            let name := more.takeWhile (· ≠ '\x7d')
            if name.isEmpty || name.length = more.length then none
            else (unescape isBytes fuel (more.drop (name.length + 1))).map (0xFFFD :: ·)
          | _ => none
        else (unescape isBytes fuel rest).map ('\\'.toNat :: c.toNat :: ·)
  | fuel + 1, c :: rest => (unescape isBytes fuel rest).map (c.toNat :: ·)

/-- The codes of a literal part: bytes for a byte string, code points otherwise. -/
def codes? (l : StringLiteral) (part : List Glyph) : Option (List Nat) :=
  let cs := Glyph.chars part
  if l.isRaw then some (cs.map Char.toNat)
  else unescape l.isBytes cs.length cs

/-! ## Formatted strings -/

/-- The expressions of a formatted string in the order of their places, and whether the string is
well formed around and after them. -/
structure Fields where
  expressions : List (List Glyph)
  wellFormed : Bool

namespace Fields

def done : Fields := ⟨[], true⟩

def broken : Fields := ⟨[], false⟩

end Fields

def isOpening (c : Char) : Bool := c == '(' || c == '[' || c == '\x7b'

def isClosing (c : Char) : Bool := c == ')' || c == ']' || c == '\x7d'

/-- The end of an expression inside a formatted string: how many glyphs it has. Brackets have to
match, strings have to end, and a backslash or a comment is refused. `quote` is the quote and size
of the string being read, if any. -/
def expressionLength (brackets : List Char) (quote : Option (Char × Nat)) :
    Nat → List Glyph → Option Nat
  | _, [] => none
  | 0, _ => none
  | fuel + 1, g :: rest =>
    let c := g.char
    let isTriple := match Glyph.chars (rest.take 2) with
      | [a, b] => a == c && b == c
      | _ => false
    if c = '\\' then none
    else match quote with
      | some (q, size) =>
        if c = q then
          if size = 3 then
            if isTriple then (expressionLength brackets none fuel (rest.drop 2)).map (· + 3)
            else (expressionLength brackets quote fuel rest).map (· + 1)
          else (expressionLength brackets none fuel rest).map (· + 1)
        else (expressionLength brackets quote fuel rest).map (· + 1)
      | none =>
        if Lexer.isQuote c then
          if isTriple then (expressionLength brackets (some (c, 3)) fuel (rest.drop 2)).map (· + 3)
          else (expressionLength brackets (some (c, 1)) fuel rest).map (· + 1)
        else if isOpening c then
          (expressionLength (c :: brackets) none fuel rest).map (· + 1)
        else if c = '#' then none
        else if brackets.isEmpty && c ∈ ['!', ':', '\x7d', '=', '<', '>'] then
          let pairs := (rest.head?.any (·.char = '=')) && c ∈ ['!', '=', '<', '>']
          if pairs then (expressionLength brackets none fuel (rest.drop 1)).map (· + 2)
          else if c = '<' || c = '>' then (expressionLength brackets none fuel rest).map (· + 1)
          else some 0
        else if isClosing c then
          match brackets with
          | opening :: outer =>
            if Lexer.closes opening c then
              (expressionLength outer none fuel rest).map (· + 1)
            else none
          | [] => none
        else (expressionLength brackets none fuel rest).map (· + 1)

/-- Splits a literal part off the front of a formatted string: its glyphs and the rest, which
begins at a single brace or is empty. In the string itself (`level` zero) two equal braces stand
for one and a single closing brace is refused. -/
def literalPart (isRaw : Bool) (level : Nat) : Nat → List Glyph → Option (List Glyph × List Glyph)
  | _, [] => some ([], [])
  | 0, _ => none
  | fuel + 1, g :: rest =>
    let c := g.char
    let keep (n : Nat) (r : Option (List Glyph × List Glyph)) :=
      r.map fun (part, left) => ((g :: rest).take n ++ part, left)
    let brace (g : Glyph) (after : List Glyph) : Option (List Glyph × List Glyph) :=
      if level = 0 then
        match after with
        | n :: more =>
          if n.char = g.char then
            (literalPart isRaw level fuel more).map fun (part, left) => (g :: part, left)
          else if g.char = '\x7d' then none
          else some ([], g :: after)
        | [] => if g.char = '\x7d' then none else some ([], [g])
      else some ([], g :: after)
    if c = '\x7b' || c = '\x7d' then brace g rest
    else if c = '\\' && !isRaw then
      match rest with
      | n :: more =>
        if n.char = 'N' then
          match more with
          | b :: name =>
            if b.char = '\x7b' then
              let skipped := (name.takeWhile (·.char ≠ '\x7d')).length + 1
              keep (skipped + 3) (literalPart isRaw level fuel (name.drop skipped))
            else keep 2 (literalPart isRaw level fuel more)
          | [] => keep 2 (some ([], []))
        else if n.char = '\x7b' || n.char = '\x7d' then
          (brace n more).map fun (part, left) => (g :: part, left)
        else keep 2 (literalPart isRaw level fuel more)
      | [] => keep 1 (some ([], []))
    else keep 1 (literalPart isRaw level fuel rest)

def isAsciiBlank (c : Char) : Bool :=
  c == ' ' || ('\t' ≤ c && c ≤ '\r')

/-- Reads a formatted string, or a format specification inside one (`level` one or more), up to a
closing brace that belongs to what is around it. Specifications nest once. -/
def readFields (l : StringLiteral) : Nat → Nat → List Glyph → Fields × List Glyph
  | 0, _, gs => (.broken, gs)
  | fuel + 1, level, gs =>
    match literalPart l.isRaw level (gs.length + 1) gs with
    | none => (.broken, gs)
    | some (part, rest) =>
      if (l.codes? part).isNone then (.broken, rest)
      else match rest with
        | [] => (.done, [])
        | g :: inner =>
          if g.char = '\x7d' then (.done, rest)
          else if 2 ≤ level then (.broken, rest)
          else match expressionLength [] none (inner.length + 1) inner with
            | none => (.broken, rest)
            | some n =>
              let expression := inner.take n
              let found (more : Fields) : Fields :=
                { more with expressions := expression :: more.expressions }
              let afterEquals := match inner.drop n with
                | e :: more =>
                  if e.char = '=' then more.dropWhile (fun (b : Glyph) => isAsciiBlank b.char) else e :: more
                | [] => []
              let afterConversion := match afterEquals with
                | e :: more =>
                  if e.char = '!' then
                    match more with
                    | k :: more => if k.char ∈ ['s', 'r', 'a'] then some more else none
                    | [] => none
                  else some (e :: more)
                | [] => none
              match afterConversion with
              | none => (found .broken, [])
              | some more =>
                let (spec, left) : Fields × List Glyph := match more with
                  | e :: more =>
                    if e.char = ':' then
                      if more.isEmpty then (.broken, []) else readFields l fuel (level + 1) more
                    else (.done, e :: more)
                  | [] => (.broken, [])
                if !spec.wellFormed then (found spec, left)
                else match left with
                  | e :: more =>
                    if e.char = '\x7d' then
                      let (next, left) := readFields l fuel level more
                      (found ⟨spec.expressions ++ next.expressions, next.wellFormed⟩, left)
                    else (found ⟨spec.expressions, false⟩, left)
                  | [] => (found ⟨spec.expressions, false⟩, [])

def fields (l : StringLiteral) : Fields :=
  (readFields l (l.body.length + 1) 0 l.body).1

end StringLiteral
end BacktestAudit.Syntax
