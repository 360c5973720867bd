/-!
Text as a reader of programs sees it: characters with their places. The three line breaks (line
feed, carriage return, and the pair of them) all read as one line feed, and the last line ends even
when nothing ends it in the text.
-/
namespace BacktestAudit.Syntax

/-- A character of the text, the bytes that it takes up, and its line, counted from one. -/
structure Glyph where
  char : Char
  start : Nat
  stop : Nat
  line : Nat

namespace Glyph

/-- Places characters from a byte offset and a line on. -/
def place : Nat → Nat → List Char → List Glyph
  | offset, line, '\r' :: '\n' :: rest =>
    ⟨'\n', offset, offset + 2, line⟩ :: place (offset + 2) (line + 1) rest
  | offset, line, c :: rest =>
    if c = '\r' ∨ c = '\n' then ⟨'\n', offset, offset + 1, line⟩ :: place (offset + 1) (line + 1) rest
    else ⟨c, offset, offset + c.utf8Size, line⟩ :: place (offset + c.utf8Size) line rest
  | _, _, [] => []

/-- Ends the last line with a line feed that takes up no bytes. Behind a pair of line breaks there
is one more line, which is empty. -/
def terminate : List Glyph → List Glyph
  | [] => [⟨'\n', 0, 0, 1⟩]
  | [g] =>
    if g.char ≠ '\n' then [g, ⟨'\n', g.stop, g.stop, g.line⟩]
    else if g.stop = g.start + 2 then [g, ⟨'\n', g.stop, g.stop, g.line + 1⟩]
    else [g]
  | g :: rest => g :: terminate rest

def ofText (text : String) : List Glyph :=
  terminate (place 0 1 text.toList)

def chars (gs : List Glyph) : List Char :=
  gs.map (·.char)

def text (gs : List Glyph) : String :=
  String.ofList (chars gs)

end Glyph
end BacktestAudit.Syntax
