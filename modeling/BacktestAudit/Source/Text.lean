import BacktestAudit.Source.Span
import BacktestAudit.Text.Blank
import BacktestAudit.Text.Bytes
import BacktestAudit.Text.Slice

/-!
Source text with its lines. Lines break at a carriage return, a line feed, or the pair of them, and
nowhere else; lines count from one and offsets are bytes of the encoded text.
-/
namespace BacktestAudit.Source
open BacktestAudit.Text

/-! ## Lines -/

def isBreak (c : Char) : Bool := c == '\r' || c == '\n'

/-- The pieces of a text between its line breaks: one more than there are breaks. -/
def pieces : List Char → List (List Char)
  | '\r' :: '\n' :: rest => [] :: pieces rest
  | c :: rest =>
    if isBreak c then [] :: pieces rest
    else match pieces rest with
      | p :: ps => (c :: p) :: ps
      | [] => [[c]]
  | [] => [[]]

def isBreakByte (b : UInt8) : Bool := b == 13 || b == 10

/-- The offsets behind the line breaks of bytes that begin at an offset. -/
def byteBreakEnds : Nat → List UInt8 → List Nat
  | offset, 13 :: 10 :: rest => (offset + 2) :: byteBreakEnds (offset + 2) rest
  | offset, b :: rest =>
    if isBreakByte b then (offset + 1) :: byteBreakEnds (offset + 1) rest
    else byteBreakEnds (offset + 1) rest
  | _, [] => []

/-- The lines of a text without their breaks; a break at the end opens no further line. -/
def lines (text : String) : List String :=
  let ps := pieces text.toList
  let kept := if ps.getLast? = some [] then ps.dropLast else ps
  kept.map String.ofList

/-- The byte offsets at which lines start, as they are found in the encoded text. -/
def lineStarts (text : String) : List Nat :=
  0 :: byteBreakEnds 0 (encode text)

/-- The byte offset of a line and a column in bytes; nothing when there is no such line. -/
def offset? (text : String) (line column : Int) : Option Int :=
  (item? (lineStarts text) (line - 1)).map fun start => (start : Int) + column

/-- The text of a line; lines that are not there are empty. -/
def lineText (text : String) (line : Int) : String :=
  if 1 ≤ line then (lines text)[(line - 1).toNat]?.getD "" else ""

/-! ## Parts -/

def bytesOf (text : String) (span : Span) : List UInt8 :=
  slice (encode text) span.start span.stop

/-- The text of a span; nothing when the span cuts a character. -/
def segment? (text : String) (span : Span) : Option String :=
  decode? (bytesOf text span)

/-- The text of a span that syntax takes up. -/
def segment (text : String) (span : Span) : String := (segment? text span).getD ""

def snippetLimit : Int := 120

/-- The first of some lines as it is shown: without blanks around it, marked when more lines follow,
and cut at the limit. -/
def snippet (text : String) (place : Lines) (limit : Int) : String :=
  let line := stripString (lineText text place.first)
  let marked := if place.first < place.last then line ++ " ..." else line
  if (marked.length : Int) ≤ limit then marked
  else String.ofList (slice marked.toList 0 (limit - 3)) ++ "..."

end BacktestAudit.Source
