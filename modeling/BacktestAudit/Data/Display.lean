import BacktestAudit.Data.Number
import BacktestAudit.Text.Quoted

/-!
Plain data as it is shown in messages: text in quotes, lists in brackets, tables in braces.
-/
namespace BacktestAudit.Data
open BacktestAudit.Text BacktestAudit.Decimal

namespace Moment

def dropZeros (kept : List Nat) (optional : List Nat) : List Nat :=
  kept ++ (optional.reverse.dropWhile (· = 0)).reverse

def arguments (ns : List Nat) : String := ", ".intercalate (ns.map toString)

def offsetArgument (minutes : Int) : String :=
  let seconds := minutes * 60
  if seconds = 0 then "datetime.timezone.utc"
  else if 0 < seconds then
    "datetime.timezone(datetime.timedelta(seconds=" ++ toString seconds ++ "))"
  else
    "datetime.timezone(datetime.timedelta(days=-1, seconds=" ++ toString (86400 + seconds) ++ "))"

/-- A date or a time as the call that makes it. -/
def shown : Moment → String
  | day d => "datetime.date(" ++ arguments [d.year, d.month, d.day] ++ ")"
  | clock c =>
    "datetime.time(" ++ arguments (dropZeros [c.hour, c.minute] [c.second, c.microsecond]) ++ ")"
  | full d c offset =>
    "datetime.datetime(" ++
      arguments (dropZeros [d.year, d.month, d.day, c.hour, c.minute] [c.second, c.microsecond]) ++
      ((offset.map fun o => ", tzinfo=" ++ offsetArgument o).getD "") ++ ")"

end Moment

namespace Value

mutual

def shown : Value → String
  | .null => "None"
  | .bool b => if b then "True" else "False"
  | .int n => toString n
  | .float x => shortest x
  | .text s => quoted s
  | .list items => "[" ++ ", ".intercalate (shownItems items) ++ "]"
  | .table entries => "\x7b" ++ ", ".intercalate (shownEntries entries) ++ "\x7d"
  | .moment m => m.shown

def shownItems : List Value → List String
  | [] => []
  | v :: vs => shown v :: shownItems vs

def shownEntries : List (String × Value) → List String
  | [] => []
  | (k, v) :: rest => (quoted k ++ ": " ++ shown v) :: shownEntries rest

end

def isWritableInt (n : Int) : Bool := n.natAbs < Nat.pow 10 maxDecimalDigits

mutual

/-- Whether a value can be shown: the integers in it have no more digits than are written. -/
def isWritable : Value → Bool
  | .int n => isWritableInt n
  | .list items => areWritable items
  | .table entries => entriesAreWritable entries
  | _ => true

def areWritable : List Value → Bool
  | [] => true
  | v :: vs => isWritable v && areWritable vs

def entriesAreWritable : List (String × Value) → Bool
  | [] => true
  | (_, v) :: rest => isWritable v && entriesAreWritable rest

end

/-- A value as text: text stands for itself. -/
def asText : Value → String
  | .text s => s
  | .moment m => m.text
  | v => v.shown

end Value

def Number.isWritable (n : Number) : Bool := n.toValue.isWritable

end BacktestAudit.Data
