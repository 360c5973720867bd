import BacktestAudit.Rules.Catalog
import BacktestAudit.Settings

/-!
Evaluation of rules on a graph. Every rule is evaluated by itself; of several reports of a rule on
one place the first is kept.
-/
namespace BacktestAudit.Rules
open BacktestAudit.Syntax BacktestAudit.Flow BacktestAudit.Source

/-- The finding that a report becomes. A cleanup without edits is advice. -/
def finding (unit : SourceUnit) (r : Rule) (m : Match) : Finding where
  rule := r.code
  category := r.category
  severity := if r.severity = .autoFix && m.edits.isEmpty then .warn else r.severity
  place := m.place
  snippet := snippet unit.text m.place snippetLimit
  message := m.message
  fixAvailable := !m.edits.isEmpty
  edits := m.edits

/-- What tells reports on a unit apart. -/
structure ReportKey where
  rule : String
  place : Lines
  snippet : String
  deriving DecidableEq, Repr

def reportKey (f : Finding) : ReportKey := ⟨f.rule, f.place, f.snippet⟩

/-- The findings whose report is not among those before them. -/
def firstOfEach (seen : List ReportKey) : List Finding → List Finding
  | [] => []
  | f :: fs =>
    if reportKey f ∈ seen then firstOfEach seen fs else f :: firstOfEach (reportKey f :: seen) fs

def context (s : Settings) (g : Graph) : Context :=
  { roles := .ofSettings s.patterns, spanning := g.spanning s.patterns.fullRange }

def evaluate (s : Settings) (g : Graph) (rules : List Rule) : Except Accident (List Finding) := do
  let ctx := context s g
  let found ← (sortBy (fun a b => a.code ≤ b.code) rules).mapM fun r => do
    return (← r.findMatches ctx g).map (finding g.unit r)
  return Finding.sorted (firstOfEach [] found.flatten)

/-- The findings of the active rules on a parsed unit. -/
def analyze (s : Settings) (unit : SourceUnit) : Except Accident (List Finding) := do
  match Graph.build? unit with
  | some g => evaluate s g (Rule.active s.disabledRules)
  | none => throw .outOfRange

def analyzeText (s : Settings) (text name : String) : Except Failure (List Finding) :=
  match SourceUnit.parse text name with
  | .ok unit => (analyze s unit).mapError .accident
  | .error e => .error (.error (.ofParse e))

/-! ## Batches -/

inductive Item where
  | parsed (unit : SourceUnit)
  | text (name text : String)

def Item.name : Item → String
  | parsed u => u.name
  | text n _ => n

/-- What comes of a unit in a batch: its findings, or its own error. -/
structure UnitResult where
  name : String
  outcome : Except AuditError (List Finding)

/-- Analyses an item; an error is its result, an accident is not. -/
def analyzeItem (s : Settings) (item : Item) : Except Accident UnitResult := do
  let unit := match item with
    | .parsed u => Except.ok u
    | .text name text => (SourceUnit.parse text name).mapError AuditError.ofParse
  match unit with
  | .ok u => return ⟨item.name, .ok (← analyze s u)⟩
  | .error e => return ⟨item.name, .error e⟩

/-- Analyses units one by one or several at a time. With more than one unit the number of workers
has to be positive. -/
def analyzeAll (s : Settings) (workers : Option Int) (items : List Item) :
    Except Accident (List UnitResult) :=
  match workers with
  | some n => if n < 0 && 2 ≤ items.length then .error .wrongValue else items.mapM (analyzeItem s)
  | none => items.mapM (analyzeItem s)

end BacktestAudit.Rules
