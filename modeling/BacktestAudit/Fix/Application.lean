import BacktestAudit.Fix.Selection
import BacktestAudit.Rules.Evaluation

/-!
Application of fixes: the edits of some findings are made at once, and the unit that comes of it is
analysed again. A fix whose finding is reported again is refused; nothing is tried twice.
-/
namespace BacktestAudit.Fix
open BacktestAudit.Source BacktestAudit.Syntax BacktestAudit.Rules

structure FixResult where
  unit : SourceUnit
  applied : List Finding
  remaining : List Finding

/-- Refuses a finding without edits and one of another text. -/
def checkTarget (unit : SourceUnit) (f : Finding) : Except Failure Unit :=
  if !f.fixAvailable || f.edits.isEmpty then
    .error (.error (.fixUnavailable f.rule f.place.first))
  else if snippet unit.text f.place snippetLimit ≠ f.snippet then
    .error (.error (.fixVerification f.rule f.place (some "finding does not match this unit")))
  else .ok ()

def taggedEdits (fs : List Finding) : List TaggedEdit :=
  fs.flatMap fun f => f.edits.map (⟨f.rule, ·⟩)

/-- How the reason begins when edits leave no program. -/
def notParsed : String := "rewrite does not parse"

/-- The unit of a text that edits have made; what is no program is blamed on the first finding. -/
def reparse (name text : String) (fs : List Finding) : Except Failure SourceUnit :=
  match SourceUnit.parse text name with
  | .ok u => .ok u
  | .error e =>
    match fs with
    | f :: _ =>
      .error (.error (.fixVerification f.rule f.place
        (some (notParsed ++ ": " ++ e.fault.cause.message))))
    | [] => .error (.accident .missingItem)

def apply (s : Settings) (unit : SourceUnit) (fs : List Finding) : Except Failure FixResult := do
  fs.forM (checkTarget unit)
  let text ← splice unit.text (taggedEdits fs)
  let rewritten ← reparse unit.name text fs
  let remaining ← (analyze s rewritten).mapError .accident
  match remaining.find? fun f => f.key ∈ fs.map Finding.key with
  | some f => throw (.error (.fixVerification f.rule f.place none))
  | none => return ⟨rewritten, fs, remaining⟩

def applyOne (s : Settings) (unit : SourceUnit) (f : Finding) : Except Failure SourceUnit :=
  (·.unit) <$> apply s unit [f]

end BacktestAudit.Fix
