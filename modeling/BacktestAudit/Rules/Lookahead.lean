import BacktestAudit.Rules.Match

/-!
Rules on lookahead bias: data that is used before it was known.
-/
namespace BacktestAudit.Rules
open BacktestAudit.Source BacktestAudit.Syntax BacktestAudit.Flow

/-! ## Signals that are traded on when they arise -/

def isUnlagged (lag : Lag) : Bool :=
  match lag with
  | none => true
  | some n => n ≤ 0

def unlaggedSignals (roles : Roles) (a : Assignment) : List Read :=
  a.reads.filter fun r =>
    roles.isSignal r.column.name && !r.sourceIsConstant && isUnlagged r.lag

/-- A read that a shift by one bar around it lags by exactly one bar. -/
def lagsByOne (r : Read) : Bool := r.shift = some 0 && (r.lag = none || r.lag = some 0)

/-- Sets the text behind a span, in its place if it is there. -/
def setEdit : List Edit → Edit → List Edit
  | [], e => [e]
  | d :: ds, e => if d.span = e.span then e :: ds else d :: setEdit ds e

/-- Edits in the order in which their spans begin, one for a span. -/
def oneForSpan (edits : List Edit) : List Edit :=
  sortBy (fun a b => a.span.start ≤ b.span.start) (edits.foldl setEdit [])

/-- Shifts every read by one bar, when that lags each of them by exactly one bar. -/
def shiftEdits (text : String) (reads : List Read) : List Edit :=
  if reads.all lagsByOne then
    oneForSpan (reads.map fun r => ⟨r.span, segment text r.span ++ ".shift(1)"⟩)
  else []

/-- Positions made of signals that are not lagged. -/
def unshiftedSignals (ctx : Context) (g : Graph) : List Match :=
  g.assignments.toList.filterMap fun a =>
    if ctx.roles.isPosition a.target.name then
      match unlaggedSignals ctx.roles a with
      | [] => none
      | reads =>
        let names := enumerate (reads.map (·.column.display))
        some {
          place := a.place
          message := s!"{a.target.display} uses {names} on the bar it is computed; " ++
            "lag it with .shift(1) before trading on it"
          edits := shiftEdits g.unit.text reads }
    else none

/-! ## Bars labelled with their start -/

def requote (original value : String) : String :=
  let quote := if original.startsWith "\"" then "\"" else "'"
  quote ++ value ++ quote

def isWord (l : Option Literal) (word : String) : Bool :=
  match l with
  | some (.str s) => s = word
  | _ => false

def keywordEdit (c : CallSite) (name : String) (replacement : Span → String) : List Edit :=
  ((c.keywordSpans.lookup name).map fun span => Edit.mk span (replacement span)).toList

def leftLabels (g : Graph) : List Match :=
  g.calls.filterMap fun c =>
    if (c.method = "resample" || c.method = "Grouper") && isWord (c.keyword? "label") "left" then
      some {
        place := c.lines
        message := "label='left' stamps each bar's aggregate with its opening time, " ++
          "before the data in it was available"
        edits := keywordEdit c "label" fun span => requote (segment g.unit.text span) "right" }
    else none

/-! ## Values of later bars -/

def futureRead (r : Read) : Option Match :=
  match r.lag with
  | some n =>
    if n < 0 then
      some {
        place := r.lines
        message := s!"{r.column.display} is shifted by {n}: it reads {-n} bar(s) into the future"
        edits := [] }
    else none
  | none => none

def futureIndex (f : ForwardIndex) : Match where
  place := f.extent.lines
  message := s!"positional index reaches {f.step} step(s) ahead of the current bar"
  edits := []

def forwardReferences (g : Graph) : List Match :=
  (g.reads.filterMap fun (_, r) => futureRead r) ++ g.forward.map futureIndex

/-! ## Windows around the bar -/

def isTrueLiteral (l : Option Literal) : Bool :=
  match l with
  | some (.bool b) => b
  | _ => false

def centeredWindows (g : Graph) : List Match :=
  g.calls.filterMap fun c =>
    if c.method = "rolling" && isTrueLiteral (c.keyword? "center") then
      some {
        place := c.lines
        message := "center=True makes each window include future observations"
        edits := keywordEdit c "center" fun _ => "False" }
    else none

/-! ## Gaps filled from later bars -/

def backwardFills : List String := ["bfill", "backfill"]

def isBackfill (c : CallSite) : Except Accident Bool :=
  if c.isFunction then .ok false
  else if c.method ∈ backwardFills then .ok true
  else if c.method = "fillna" then keywordAmong c "method" backwardFills
  else .ok false

def backfills (g : Graph) : Except Accident (List Match) := do
  let calls ← g.calls.filterM isBackfill
  return calls.map fun c =>
    { place := c.lines, message := "backward fill copies later values into earlier gaps"
      edits := [] }

end BacktestAudit.Rules
