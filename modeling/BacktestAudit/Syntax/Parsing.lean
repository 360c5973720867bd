import BacktestAudit.Syntax.Tree
import BacktestAudit.Syntax.Token
import Std.Data.TreeMap

/-!
Ordered-choice parsing over tokens. A parser matches, refuses (and a later alternative is tried at
the same place), or is at fault, which ends the whole parse. It keeps count of the tokens looked at,
because an error is reported at the furthest of them, and remembers the outcome of chosen rules at
each place.
-/
namespace BacktestAudit.Syntax
open BacktestAudit.Source

inductive Rule where
  | expression
  | starExpression
  | bindingFault
  | disjunction
  | conjunction
  | inversion
  | bitwiseOr
  | bitwiseXor
  | bitwiseAnd
  | shift
  | sum
  | term
  | factor
  | awaitPrimary
  | primary
  | strings
  | arguments
  | starTarget
  | starAtomTarget
  | targetPrimary
  | deletionTarget
  | simpleStatement
  | block
  | closedPattern
  | starPattern
  deriving DecidableEq, Repr

inductive Node where
  | expr (e : Expr)
  | exprs (es : List Expr)
  | stmts (ss : List Stmt)
  | unit

class Remembered (α : Type) where
  toNode : α → Node
  ofNode? : Node → Option α

instance : Remembered Expr where
  toNode := .expr
  ofNode?
    | .expr e => some e
    | _ => none

instance : Remembered (List Expr) where
  toNode := .exprs
  ofNode?
    | .exprs es => some es
    | _ => none

instance : Remembered (List Stmt) where
  toNode := .stmts
  ofNode?
    | .stmts ss => some ss
    | _ => none

instance : Remembered Unit where
  toNode _ := .unit
  ofNode?
    | .unit => some ()
    | _ => none

/-- How far a parse has come: the next token, the number of tokens looked at, and what is
remembered, by place and rule. -/
structure Progress where
  pos : Nat
  reached : Nat
  memo : Std.TreeMap Nat (Option (Node × Nat))

/-- What is parsed, and whether the rules that tell a fault apart take part. -/
structure Setting where
  stream : TokenStream
  diagnosing : Bool

/-- A fault that stops a parse. A `final` one is reported whatever the rest of the text is;
`reached` counts the tokens looked at. -/
structure Stop where
  fault : Fault
  final : Bool
  reached : Nat

inductive Outcome (α : Type) where
  | matched (value : α) (next : Progress)
  | refused (next : Progress)
  | stopped (stop : Stop)

def Parser (α : Type) : Type := Setting → Progress → Outcome α

namespace Parser

def pure (a : α) : Parser α := fun _ p => .matched a p

def bind (m : Parser α) (k : α → Parser β) : Parser β := fun s p =>
  match m s p with
  | .matched a q => k a s q
  | .refused q => .refused q
  | .stopped e => .stopped e

instance : Monad Parser where
  pure := Parser.pure
  bind := Parser.bind

def refuse : Parser α := fun _ p => .refused p

/-- The second parser is tried where the first began. -/
def orElse (m : Parser α) (n : Unit → Parser α) : Parser α := fun s p =>
  let pos := p.pos
  match m s p with
  | .refused q => n () s { q with pos }
  | r => r

instance : OrElse (Parser α) where
  orElse := Parser.orElse

def firstOf : List (Parser α) → Parser α
  | [] => refuse
  | m :: rest => m <|> firstOf rest

/-- Once `head` matches there is no other alternative than `body`. -/
def commit (head : Parser α) (body : α → Parser β) (other : Parser β) : Parser β := fun s p =>
  let pos := p.pos
  match head s p with
  | .matched a q => body a s q
  | .refused q => other s { q with pos }
  | .stopped e => .stopped e

def optional (m : Parser α) : Parser (Option α) :=
  (do return some (← m)) <|> Parser.pure none

/-- Repeats a parser while it matches and moves on. -/
def manyUpTo (m : Parser α) : Nat → Parser (List α)
  | 0 => Parser.pure []
  | n + 1 => fun s p =>
    let pos := p.pos
    match m s p with
    | .matched a q =>
      if q.pos = pos then .matched [a] q
      else match manyUpTo m n s q with
        | .matched as r => .matched (a :: as) r
        | .refused r => .refused r
        | .stopped e => .stopped e
    | .refused q => .matched [] { q with pos }
    | .stopped e => .stopped e

def many (m : Parser α) : Parser (List α) := fun s p =>
  manyUpTo m (s.stream.tokens.size + 1) s p

def many1 (m : Parser α) : Parser (List α) := do
  let a ← m
  return a :: (← many m)

def sepBy1 (m : Parser α) (separator : Parser β) : Parser (List α) := do
  let a ← m
  return a :: (← many (do let _ ← separator; m))

/-- Matches where `m` matches and moves nowhere. -/
def ahead (m : Parser α) : Parser Unit := fun s p =>
  let pos := p.pos
  match m s p with
  | .matched _ q => .matched () { q with pos }
  | .refused q => .refused q
  | .stopped e => .stopped e

/-- Matches where `m` refuses and moves nowhere. -/
def notAhead (m : Parser α) : Parser Unit := fun s p =>
  let pos := p.pos
  match m s p with
  | .matched _ q => .refused q
  | .refused q => .matched () { q with pos }
  | .stopped e => .stopped e

def remember [Remembered α] (rule : Rule) (m : Parser α) : Parser α := fun s p =>
  let key := p.pos * 32 + rule.ctorIdx
  match p.memo[key]? with
  | some none => .refused p
  | some (some (node, stop)) =>
    match Remembered.ofNode? node with
    | some a => .matched a { p with pos := stop }
    | none => .refused p
  | none =>
    match m s p with
    | .matched a q =>
      .matched a { q with memo := q.memo.insert key (some (Remembered.toNode a, q.pos)) }
    | .refused q => .refused { q with memo := q.memo.insert key none }
    | .stopped e => .stopped e

/-! ## Tokens -/

/-- The next token; where the tokens break off, the fault there. -/
def peek : Parser Token := fun s p =>
  match s.stream.tokens[p.pos]? with
  | some t => .matched t { p with reached := max p.reached (p.pos + 1) }
  | none =>
    match s.stream.ending with
    | some e => .stopped ⟨e.fault, true, p.reached⟩
    | none => .refused p

def satisfy (test : Token → Bool) : Parser Token := do
  let t ← peek
  if test t then fun _ p => .matched t { p with pos := p.pos + 1 } else refuse

def kind (k : TokenKind) : Parser Token := satisfy (·.kind = k)

def symbol (text : String) : Parser Token :=
  satisfy fun t => (t.kind = .operator || t.kind = .keyword) && t.text == text

def softKeyword (text : String) : Parser Token :=
  satisfy fun t => t.kind = .name && t.text == text

def anyName : Parser Token := kind .name

/-! ## Places and faults -/

def position : Parser Nat := fun _ p => .matched p.pos p

/-- The last token before a place that stands for characters of the text. -/
def lastWritten (tokens : Array Token) : Nat → Option Token
  | 0 => none
  | n + 1 =>
    match tokens[n]? with
    | some t => if t.isLayout then lastWritten tokens n else some t
    | none => none

def extentFrom (first : Nat) : Parser Extent := fun s p =>
  match s.stream.tokens[first]?, lastWritten s.stream.tokens p.pos with
  | some a, some b => .matched ⟨a.start, b.stop, a.firstLine, b.lastLine⟩ p
  | _, _ => .matched ⟨0, 0, 0, 0⟩ p

def located (m : Parser (Extent → α)) : Parser α := do
  let first ← position
  let _ ← peek
  let build ← m
  return build (← extentFrom first)

def raiseAt (line : Nat) (cause : Cause) : Parser α := fun _ p =>
  .stopped ⟨⟨line, cause⟩, false, p.reached⟩

def raiseFurthest (cause : Cause) : Parser α := fun s p =>
  let line := (s.stream.tokens[p.reached - 1]?.map (·.firstLine)).getD 0
  .stopped ⟨⟨line, cause⟩, false, p.reached⟩

def forced (text : String) : Parser Token :=
  symbol text <|> do
    let t ← peek
    raiseAt t.firstLine .invalidSyntax

/-- Takes part only while the cause of a fault is looked for. -/
def diagnosing (m : Parser α) : Parser α := fun s p =>
  if s.diagnosing then m s p else .refused p

def undiagnosed (m : Parser α) : Parser α := fun s p =>
  m { s with diagnosing := false } p

end Parser

/-! ## Whole texts -/

/-- The fault that is reported for a stream whose parse stopped: a prevailing lexical fault further
on comes first, then a bracket that is never closed and opens on an earlier line. -/
def TokenStream.report (stream : TokenStream) (stop : Stop) : Fault :=
  if stop.final then stop.fault
  else match stream.ending with
    | none => stop.fault
    | some e =>
      let line := (stream.tokens[stop.reached - 1]?.map (·.firstLine)).getD 0
      if e.prevailing then e.fault
      else match e.openBracket with
        | some opening => if opening < line then ⟨opening, .unclosedBracket⟩ else stop.fault
        | none => stop.fault

/-- Parses a whole stream. When no rule matches, a second parse looks for the cause; failing that,
the fault is at the furthest token of the first. -/
def TokenStream.parse (stream : TokenStream) (m : Parser α) : Except Fault α :=
  let start : Progress := ⟨0, 0, {}⟩
  match m ⟨stream, false⟩ start with
  | .matched a _ => .ok a
  | .stopped stop => .error (stream.report stop)
  | .refused p =>
    match m ⟨stream, true⟩ { start with reached := p.reached } with
    | .stopped stop => .error (stream.report stop)
    | .matched _ q | .refused q =>
      match stream.tokens[p.reached - 1]? with
      | none => .error ⟨0, .invalidSyntax⟩
      | some t =>
        if t.kind = .indent || t.kind = .dedent then .error ⟨t.firstLine, .unexpectedIndent⟩
        else .error (stream.report ⟨⟨t.firstLine, .invalidSyntax⟩, false, q.reached⟩)

end BacktestAudit.Syntax
