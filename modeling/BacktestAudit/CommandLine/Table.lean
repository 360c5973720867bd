import BacktestAudit.Text.CellWidth

/-!
Tables in boxes: a heading in heavy lines, rows in light ones. Columns are as wide as their longest
cell, with a blank on each side.
-/
namespace BacktestAudit.CommandLine
open BacktestAudit.Text

inductive Alignment where
  | left
  | right
  | centre
  deriving DecidableEq, Repr

structure Column where
  heading : String
  alignment : Alignment := .left
  minWidth : Nat := 0

structure Table where
  /-- Stands above the box. -/
  title : Option String
  columns : List Column
  rows : List (List String)

namespace Table

def blanks (n : Nat) : String := String.ofList (List.replicate n ' ')

/-- A text in a number of cells; a blank that cannot be shared stands on the right. -/
def aligned (a : Alignment) (width : Nat) (s : String) : String :=
  let free := width - cellWidth s
  match a with
  | .left => s ++ blanks free
  | .right => blanks free ++ s
  | .centre => blanks (free / 2) ++ s ++ blanks (free - free / 2)

def widths (t : Table) : List Nat :=
  t.columns.zipIdx.map fun (c, i) =>
    (t.rows.map fun row => cellWidth (row.getD i "")).foldl max
      (max c.minWidth (cellWidth c.heading))

def rule (left fill cross right : String) (widths : List Nat) : String :=
  left ++ cross.intercalate (widths.map fun w => String.join (List.replicate (w + 2) fill)) ++ right

def line (bar : String) (cells : List String) : String :=
  bar ++ bar.intercalate (cells.map fun c => " " ++ c ++ " ") ++ bar

def cells (t : Table) (widths : List Nat) (texts : List String) : List String :=
  ((t.columns.zip widths).zip texts).map fun ((c, w), s) => aligned c.alignment w s

def lines (t : Table) : List String :=
  let ws := t.widths
  t.title.toList ++
    [rule "┏" "━" "┳" "┓" ws, line "┃" (t.cells ws (t.columns.map Column.heading)),
     rule "┡" "━" "╇" "┩" ws] ++
    t.rows.map (fun row => line "│" (t.cells ws row)) ++ [rule "└" "─" "┴" "┘" ws]

end Table
end BacktestAudit.CommandLine
