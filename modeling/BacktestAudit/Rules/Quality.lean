import BacktestAudit.Rules.Match

/-!
The rule on fills that name their method: they are written as a call of the method itself.
-/
namespace BacktestAudit.Rules
open BacktestAudit.Source BacktestAudit.Syntax BacktestAudit.Flow BacktestAudit.Text

def forwardFills : List String := ["ffill", "pad"]

def isForwardFill (c : CallSite) : Except Accident Bool :=
  if c.method = "fillna" && !c.isFunction then keywordAmong c "method" forwardFills else .ok false

/-! ## The edits -/

def breaksOf : List Char → List Char
  | [] => []
  | c :: cs => if isBreak c then c :: breaksOf cs else breaksOf cs

/-- What keeps the lines when a text is removed: its line breaks, and the indent behind the last of
them. -/
def lineStructure (text : String) : String :=
  let cs := text.toList
  if cs.any isBreak then
    let last := ((pieces cs).getLast?).getD []
    let indent := if !last.isEmpty && last.all isBlank then last else []
    String.ofList (breaksOf cs ++ indent)
  else ""

/-- Moves a start back over the spaces and tabs before it. -/
def backOverIndent (bytes : List UInt8) (start : Nat) : Nat :=
  start - ((bytes.take start).reverse.takeWhile fun b => b = 32 || b = 9).length

/-- The span that goes with an argument: up to the next argument, else from the end of the one
before it, else up to the closing bracket of the call. -/
def removedSpan (arguments : List (ArgumentKey × Span)) (index : Nat) (call own : Span) : Span :=
  match arguments[index + 1]? with
  | some (_, next) => ⟨own.start, next.start⟩
  | none =>
    match index with
    | 0 => ⟨own.start, call.stop - 1⟩
    | k + 1 =>
      match arguments[k]? with
      | some (_, previous) => ⟨previous.stop, own.stop⟩
      | none => ⟨own.start, own.stop⟩

/-- Calls the method itself and drops the argument that named it. There is no such call when an
argument stands in place, or when the value to fill with is given as well. -/
def fillEdits (text : String) (c : CallSite) : List Edit :=
  let keys := c.arguments.map (·.1)
  match c.nameSpan, c.arguments.findIdx? (·.1 = .named "method") with
  | some nameSpan, some index =>
    if .inPlace ∈ keys ∨ .named "value" ∈ keys then []
    else
      match c.arguments[index]? with
      | some (_, own) =>
        let span := removedSpan c.arguments index c.span own
        let removed :=
          if (segment text span).toList.any isBreak then
            ⟨backOverIndent (encode text) span.start.toNat, span.stop⟩
          else span
        [⟨nameSpan, "ffill"⟩, ⟨removed, lineStructure (segment text removed)⟩]
      | none => []
  | _, _ => []

def deprecatedFills (g : Graph) : Except Accident (List Match) := do
  let calls ← g.calls.filterM isForwardFill
  return calls.map fun c =>
    { place := c.lines, message := "fillna(method=...) is deprecated; use .ffill()"
      edits := fillEdits g.unit.text c }

end BacktestAudit.Rules
