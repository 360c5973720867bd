import BacktestAudit.Syntax.Token
import BacktestAudit.Text.Identifier

/-!
From glyphs to tokens. Lines are joined inside brackets and after a backslash; elsewhere the margin
of a line opens and closes blocks. Each reader below takes a run of glyphs and gives back what is
left of it, or nothing when no lexeme of its kind stands there.
-/
namespace BacktestAudit.Syntax.Lexer
open BacktestAudit.Text

/-! ## Numbers -/

/-- Skips digits of one class; an underscore may stand between two of them. -/
def digitTail (isDigit : Char → Bool) : List Glyph → Option (List Glyph)
  | a :: b :: rest =>
    if isDigit a.char then digitTail isDigit (b :: rest)
    else if a.char = '_' then
      if isDigit b.char then digitTail isDigit (b :: rest) else none
    else some (a :: b :: rest)
  | [a] => if isDigit a.char then some [] else if a.char = '_' then none else some [a]
  | [] => some []

def isHexDigit (c : Char) : Bool :=
  c.isDigit || ('a' ≤ c && c ≤ 'f') || ('A' ≤ c && c ≤ 'F')

def isOctalDigit (c : Char) : Bool := '0' ≤ c && c ≤ '7'

def isBinaryDigit (c : Char) : Bool := c == '0' || c == '1'

/-- Bytes outside ASCII count as parts of a word until the word is checked as a whole. -/
def isWordChar (c : Char) : Bool :=
  c.isAlphanum || c == '_' || 128 ≤ c.toNat

def isWordStart (c : Char) : Bool :=
  c.isAlpha || c == '_' || 128 ≤ c.toNat

def startsWith (word : String) (gs : List Glyph) : Bool :=
  word.toList == Glyph.chars (gs.take word.length)

def standsAlone (word : String) (gs : List Glyph) : Bool :=
  startsWith word gs &&
    match gs.drop word.length with
    | g :: _ => !isWordChar g.char
    | [] => true

/-- A number ends before a character that cannot belong to a word of ASCII, or before an operator
word; one of two letters that begins with `i` may go on. -/
def endsNumber (gs : List Glyph) : Bool :=
  ["and", "else", "for", "or", "not"].any (standsAlone · gs) ||
    ["if", "in", "is"].any (startsWith · gs) ||
    match gs with
    | g :: _ => !(g.char.isAlphanum || g.char == '_')
    | [] => true

def endNumber (gs : List Glyph) : Option (List Glyph) :=
  if endsNumber gs then some gs else none

def isExponentMark (c : Char) : Bool := c == 'e' || c == 'E'

def isImaginaryMark (c : Char) : Bool := c == 'j' || c == 'J'

def imaginary (gs : List Glyph) : Option (List Glyph) :=
  match gs with
  | g :: rest => if isImaginaryMark g.char then endNumber rest else endNumber gs
  | [] => some []

def exponent (gs : List Glyph) : Option (List Glyph) :=
  match gs with
  | e :: s :: d :: rest =>
    if isExponentMark e.char then
      if s.char = '+' ∨ s.char = '-' then
        if d.char.isDigit then (digitTail Char.isDigit (d :: rest)).bind imaginary else none
      else if s.char.isDigit then (digitTail Char.isDigit (s :: d :: rest)).bind imaginary
      else endNumber gs
    else imaginary gs
  | e :: s :: [] =>
    if isExponentMark e.char && s.char.isDigit then some [] else imaginary gs
  | _ => imaginary gs

def fraction (gs : List Glyph) : Option (List Glyph) :=
  match gs with
  | g :: _ =>
    if g.char.isDigit then (digitTail Char.isDigit gs).bind exponent else exponent gs
  | [] => some []

def fractionOrExponent (gs : List Glyph) : Option (List Glyph) :=
  match gs with
  | g :: rest => if g.char = '.' then fraction rest else exponent gs
  | [] => some []

def based (isDigit : Char → Bool) (gs : List Glyph) : Option (List Glyph) :=
  let digits := match gs with
    | g :: rest => if g.char = '_' then rest else gs
    | [] => []
  match digits with
  | d :: _ => if isDigit d.char then (digitTail isDigit digits).bind endNumber else none
  | [] => none

/-- Skips zeros; an underscore must stand before a digit. -/
def zeros : List Glyph → Option (List Glyph)
  | a :: b :: rest =>
    if a.char = '0' then zeros (b :: rest)
    else if a.char = '_' then
      if b.char.isDigit then zeros (b :: rest) else none
    else some (a :: b :: rest)
  | [a] => if a.char = '0' then some [] else if a.char = '_' then none else some [a]
  | [] => some []

/-- A number that begins with a zero and names no base: further digits need a point, an exponent or
the imaginary mark. -/
def afterZero (gs : List Glyph) : Option (List Glyph) := do
  let rest ← zeros gs
  match rest with
  | g :: _ =>
    if g.char.isDigit then
      let tail ← digitTail Char.isDigit rest
      match tail with
      | t :: _ =>
        if t.char = '.' || isExponentMark t.char || isImaginaryMark t.char
        then fractionOrExponent tail else none
      | [] => none
    else fractionOrExponent rest
  | [] => some []

def number (gs : List Glyph) : Option (List Glyph) :=
  match gs with
  | z :: rest =>
    if z.char = '0' then
      match rest with
      | b :: digits =>
        if b.char = 'x' || b.char = 'X' then based isHexDigit digits
        else if b.char = 'o' || b.char = 'O' then based isOctalDigit digits
        else if b.char = 'b' || b.char = 'B' then based isBinaryDigit digits
        else afterZero rest
      | [] => some []
    else (digitTail Char.isDigit gs).bind fractionOrExponent
  | [] => none

/-! ## Strings -/

/-- Reads up to the closing quotes; `seen` of them have been read. A line break ends a string in
single quotes, a backslash hides the next character. -/
def stringBody (quote : Char) (size : Nat) (seen : Nat) : List Glyph → Option (List Glyph)
  | [] => none
  | g :: rest =>
    if g.char = quote then
      if seen + 1 = size then some rest else stringBody quote size (seen + 1) rest
    else if size = 1 ∧ g.char = '\n' then none
    else if g.char = '\\' then
      match rest with
      | [] => none
      | _ :: hidden => stringBody quote size 0 hidden
    else stringBody quote size 0 rest

def quoted (gs : List Glyph) : Option (List Glyph) :=
  match gs with
  | q :: rest =>
    match rest with
    | a :: b :: more =>
      if a.char = q.char then
        if b.char = q.char then stringBody q.char 3 0 more else some (b :: more)
      else stringBody q.char 1 0 rest
    | _ => stringBody q.char 1 0 rest
  | [] => none

/-- The letters that may stand before the quote: raw, byte and formatted strings in either order,
and the plain mark `u` alone. -/
def isStringMark (mark : List Char) : Bool :=
  let lower := mark.map Char.toLower
  lower ∈ [[], ['b'], ['r'], ['u'], ['f'], ['b', 'r'], ['r', 'b'], ['f', 'r'], ['r', 'f']]

def isQuote (c : Char) : Bool := c == '\'' || c == '"'

/-- Splits a string with its mark off the front, when the next quote belongs to a string here. -/
def markedString? (gs : List Glyph) : Option (List Glyph) :=
  let mark := gs.takeWhile (·.char.isAlpha)
  match gs.drop mark.length with
  | q :: rest => if isQuote q.char && isStringMark (Glyph.chars mark) then some (q :: rest) else none
  | [] => none

/-! ## Words and operators -/

def keywords : List String :=
  ["False", "None", "True", "and", "as", "assert", "async", "await", "break", "class", "continue",
   "def", "del", "elif", "else", "except", "finally", "for", "from", "global", "if", "import", "in",
   "is", "lambda", "nonlocal", "not", "or", "pass", "raise", "return", "try", "while", "with",
   "yield"]

def operators : List String :=
  ["**=", "//=", "<<=", ">>=", "...",
   "!=", "%=", "&=", "**", "*=", "+=", "-=", "->", "//", "/=", ":=", "<<", "<=", "<>", "==", ">=",
   ">>", "@=", "^=", "|="]

/-- The longest operator at the front; any other character stands for itself. -/
def operatorLength (gs : List Glyph) : Nat :=
  match operators.find? (startsWith · gs) with
  | some op => op.length
  | none => 1

def closes (opening closing : Char) : Bool :=
  (opening, closing) ∈ [('(', ')'), ('[', ']'), ('{', '}')]

def misfit? : List Char → Option Char
  | [] => none
  | c :: rest => if Identifier.isStart c then rest.find? (!Identifier.isFollow ·) else some c

/-! ## Margins -/

/-- The margin of a line: its column with tabs to the next multiple of eight, its column with tabs
as single blanks, and the column of the first backslash in it, if that is not zero. -/
structure Margin where
  column : Nat
  narrow : Nat
  held : Nat

namespace Margin

def columns (m : Margin) : Nat × Nat :=
  if m.held = 0 then (m.column, m.narrow) else (m.held, m.held)

/-- Measures the margin. A backslash has to end its line, and a line has to follow. -/
def measure (m : Margin) : List Glyph → Except Fault (Margin × List Glyph)
  | [] => .ok (m, [])
  | g :: rest =>
    if g.char = ' ' then measure { m with column := m.column + 1, narrow := m.narrow + 1 } rest
    else if g.char = '\t' then
      measure { m with column := (m.column / 8 + 1) * 8, narrow := m.narrow + 1 } rest
    else if g.char = '\x0c' then measure { m with column := 0, narrow := 0 } rest
    else if g.char = '\\' then
      match rest with
      | n :: more =>
        if n.char = '\n' then
          match more with
          | [] => .error ⟨g.line, .unexpectedEnd⟩
          | _ => measure { m with held := if m.held = 0 then m.column else m.held } more
        else .error ⟨g.line, .strayContinuation⟩
      | [] => .error ⟨g.line, .strayContinuation⟩
    else .ok (m, g :: rest)

end Margin

/-! ## The token sequence -/

/-- The open blocks, by the two columns of their margins, and the open brackets with their lines;
the innermost come first. -/
structure Context where
  blocks : List (Nat × Nat)
  brackets : List (Char × Nat)

namespace Context

def depth (c : Context) : Nat := c.brackets.length

def margins (c : Context) : Nat × Nat := c.blocks.headD (0, 0)

end Context

def maxBrackets : Nat := 200

def maxBlocks : Nat := 100

def token (kind : TokenKind) (lexeme : List Glyph) (depth : Nat) : Token :=
  let first := lexeme.headD ⟨' ', 0, 0, 1⟩
  let last := lexeme.getLastD first
  { kind, text := Glyph.text lexeme, lexeme, start := first.start, stop := last.stop,
    firstLine := first.line, lastLine := last.line, depth }

/-- A token that takes up no characters. -/
def layout (kind : TokenKind) (line depth : Nat) : Token :=
  { kind, text := "", lexeme := [], start := 0, stop := 0, firstLine := line, lastLine := line,
    depth }

def before (gs rest : List Glyph) : List Glyph :=
  match rest with
  | r :: _ => gs.takeWhile (·.start < r.start)
  | [] => gs

def breakOff (tokens : Array Token) (c : Context) (fault : Fault) (prevailing : Bool) : TokenStream :=
  ⟨tokens, some ⟨fault, prevailing, c.brackets.head?.map (·.2)⟩⟩

/-- A text that ends inside brackets is at fault where the innermost one opens. -/
def breakOffAtEnd (tokens : Array Token) (c : Context) (fault : Fault) : TokenStream :=
  match c.brackets with
  | (_, line) :: _ => breakOff tokens c ⟨line, .unclosedBracket⟩ false
  | [] => breakOff tokens c fault false

/-- Opens or closes blocks so that the innermost has the given margin. -/
def enterMargin (tokens : Array Token) (c : Context) (columns : Nat × Nat) (line : Nat) :
    Except Cause (Array Token × Context) :=
  let (column, narrow) := columns
  let (top, topNarrow) := c.margins
  if column = top then
    if narrow = topNarrow then .ok (tokens, c) else .error .inconsistentTabs
  else if top < column then
    if maxBlocks ≤ c.blocks.length + 1 then .error .tooManyIndents
    else if narrow ≤ topNarrow then .error .inconsistentTabs
    else .ok (tokens.push (layout .indent line 0), { c with blocks := (column, narrow) :: c.blocks })
  else
    let kept := c.blocks.dropWhile (column < ·.1)
    let closed := { c with blocks := kept }
    if closed.margins.1 ≠ column then .error .inconsistentDedent
    else if closed.margins.2 ≠ narrow then .error .inconsistentTabs
    else
      let dedents := List.replicate (c.blocks.length - kept.length) (layout .dedent line 0)
      .ok (tokens ++ dedents.toArray, closed)

/-- Reads tokens, at the start of a line or inside one. `lastLine` is the number of the last line.
Every step takes a glyph or ends a line, so twice the number of glyphs bounds the steps. -/
def run (lastLine : Nat) : Nat → Bool → Context → List Glyph → Array Token → TokenStream
  | 0, _, _, _, tokens => ⟨tokens, none⟩
  | fuel + 1, true, c, gs, tokens =>
    match Margin.measure ⟨0, 0, 0⟩ gs with
    | .error fault =>
      if fault.cause = .unexpectedEnd then breakOffAtEnd tokens c fault
      else breakOff tokens c fault false
    | .ok (m, rest) =>
      let line := (rest.head?.map (·.line)).getD lastLine
      match rest with
      | g :: _ =>
        if g.char = '#' || g.char = '\n' then
          run lastLine fuel true c ((rest.dropWhile (·.char ≠ '\n')).drop 1) tokens
        else if c.depth = 0 then
          match enterMargin tokens c m.columns line with
          | .ok (tokens, c) => run lastLine fuel false c rest tokens
          | .error cause => breakOff tokens c ⟨line, cause⟩ false
        else run lastLine fuel false c rest tokens
      | [] =>
        if c.depth = 0 then
          match enterMargin tokens c m.columns line with
          | .ok (tokens, _) => ⟨tokens.push (layout .finish lastLine 0), none⟩
          | .error cause => breakOff tokens c ⟨line, cause⟩ false
        else breakOffAtEnd tokens c ⟨lastLine, .unexpectedEnd⟩
  | fuel + 1, false, c, gs, tokens =>
    match gs with
    | [] => breakOffAtEnd tokens c ⟨lastLine, .unexpectedEnd⟩
    | g :: rest =>
      let lexeme (left : List Glyph) := before gs left
      let emit (kind : TokenKind) (left : List Glyph) :=
        run lastLine fuel false c left (tokens.push (token kind (lexeme left) c.depth))
      if g.char = ' ' || g.char = '\t' || g.char = '\x0c' then run lastLine fuel false c rest tokens
      else if g.char = '#' then
        run lastLine fuel false c (gs.dropWhile (·.char ≠ '\n')) tokens
      else if g.char = '\n' then
        if c.depth = 0 then
          run lastLine fuel true c rest (tokens.push (layout .newline g.line 0))
        else run lastLine fuel true c rest tokens
      else if g.char = '\\' then
        match rest with
        | n :: more =>
          if n.char = '\n' then
            match more with
            | [] => breakOffAtEnd tokens c ⟨g.line, .unexpectedEnd⟩
            | _ => run lastLine fuel false c more tokens
          else breakOff tokens c ⟨g.line, .strayContinuation⟩ false
        | [] => breakOff tokens c ⟨g.line, .strayContinuation⟩ false
      else if isWordStart g.char || isQuote g.char then
        match markedString? gs with
        | some body =>
          match quoted body with
          | some left => emit .string left
          | none => breakOff tokens c ⟨g.line, .unterminatedString⟩ true
        | none =>
          let left := gs.dropWhile (isWordChar ·.char)
          let word := Glyph.chars (lexeme left)
          if word.all (·.toNat < 128) then
            emit (if String.ofList word ∈ keywords then .keyword else .name) left
          else
            match misfit? word with
            | some bad => breakOff tokens c ⟨g.line, .invalidCharacter bad⟩ true
            | none => emit .name left
      else if g.char.isDigit || (g.char = '.' && (rest.head?.any (·.char.isDigit))) then
        match (if g.char = '.' then fraction rest else number gs) with
        | some left => emit .number left
        | none => breakOff tokens c ⟨g.line, .invalidNumber⟩ true
      else if g.char = '(' || g.char = '[' || g.char = '\x7b' then
        if maxBrackets ≤ c.depth then breakOff tokens c ⟨g.line, .tooManyBrackets⟩ true
        else
          let c := { c with brackets := (g.char, g.line) :: c.brackets }
          run lastLine fuel false c rest (tokens.push (token .operator [g] c.depth))
      else if g.char = ')' || g.char = ']' || g.char = '\x7d' then
        match c.brackets with
        | (opening, _) :: outer =>
          if closes opening g.char then
            let c := { c with brackets := outer }
            run lastLine fuel false c rest (tokens.push (token .operator [g] c.depth))
          else breakOff tokens c ⟨g.line, .unmatchedBracket g.char⟩ true
        | [] => breakOff tokens c ⟨g.line, .unmatchedBracket g.char⟩ true
      else if g.char.toNat < 32 || g.char.toNat = 127 then
        breakOff tokens c ⟨g.line, .invalidCharacter g.char⟩ true
      else emit .operator (gs.drop (operatorLength gs))

def ofGlyphs (gs : List Glyph) : TokenStream :=
  let lastLine := (gs.getLast?.map (·.line)).getD 1
  run lastLine (2 * gs.length + 2) true ⟨[], []⟩ gs #[]

end BacktestAudit.Syntax.Lexer
