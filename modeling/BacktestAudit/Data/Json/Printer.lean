import BacktestAudit.Data.Value
import BacktestAudit.Decimal.Shortest

/-!
Printing of values as JSON text in ASCII characters. What a list or a table holds stands on lines of
its own, two blanks further in.
-/
namespace BacktestAudit.Data.Json
open BacktestAudit.Decimal

def hexDigits (width n : Nat) : String :=
  let ds := Nat.toDigits 16 n
  String.ofList (List.replicate (width - ds.length) '0' ++ ds)

def unitEscape (n : Nat) : String := "\\u" ++ hexDigits 4 n

/-- A character inside quotes; those beyond the first plane are written in two halves. -/
def escaped (c : Char) : String :=
  let n := c.toNat
  if c = '"' then "\\\""
  else if c = '\\' then "\\\\"
  else if c = '\n' then "\\n"
  else if c = '\r' then "\\r"
  else if c = '\t' then "\\t"
  else if n = 8 then "\\b"
  else if n = 12 then "\\f"
  else if n < 32 || 127 < n && n < 0x10000 then unitEscape n
  else if n < 128 then String.singleton c
  else unitEscape (0xD800 + (n - 0x10000) / 1024) ++ unitEscape (0xDC00 + (n - 0x10000) % 1024)

def quotedText (s : String) : String := "\"" ++ String.join (s.toList.map escaped) ++ "\""

def floatText (x : Float) : String :=
  if x.isNaN then "NaN"
  else if x.isInf then if x < 0 then "-Infinity" else "Infinity"
  else shortest x

def lineStart (depth : Nat) : String := "\n" ++ String.ofList (List.replicate (2 * depth) ' ')

def bracketed (opening closing : String) (depth : Nat) (items : List String) : String :=
  if items.isEmpty then opening ++ closing
  else
    opening ++ lineStart (depth + 1) ++ ("," ++ lineStart (depth + 1)).intercalate items ++
      lineStart depth ++ closing

mutual

def printAt (depth : Nat) : Value → String
  | .null => "null"
  | .bool b => if b then "true" else "false"
  | .int n => toString n
  | .float x => floatText x
  | .text s => quotedText s
  | .list items => bracketed "[" "]" depth (printItems (depth + 1) items)
  | .table entries => bracketed "\x7b" "\x7d" depth (printEntries (depth + 1) entries)
  | .moment m => quotedText m.text

def printItems (depth : Nat) : List Value → List String
  | [] => []
  | v :: vs => printAt depth v :: printItems depth vs

def printEntries (depth : Nat) : List (String × Value) → List String
  | [] => []
  | (k, v) :: rest => (quotedText k ++ ": " ++ printAt depth v) :: printEntries depth rest

end

def print (v : Value) : String := printAt 0 v

end BacktestAudit.Data.Json
