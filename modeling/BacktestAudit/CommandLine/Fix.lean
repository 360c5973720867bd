import BacktestAudit.CommandLine.Outcome
import BacktestAudit.CommandLine.Request
import BacktestAudit.Fix.Application

/-!
Fixing: the fixes of a program that do not touch each other are made in one pass, and the text that
comes of it is printed or written back. Nothing is written when a fix is refused.
-/
namespace BacktestAudit.CommandLine.Fix
open BacktestAudit.Data BacktestAudit.Fix BacktestAudit.Syntax

/-- What a pass comes to: the program afterwards, the findings that were mended, and those that are
left. -/
structure Pass where
  fixed : String
  selected : List Finding
  remaining : List Finding

def pass (settings : Settings) (name text : String) : Except Failure Pass := do
  let unit ← (SourceUnit.parse text name).mapError fun e => .error (.ofParse e)
  let found ← (Rules.analyze settings unit).mapError .accident
  let selected := (Fix.select found).selected
  if selected.isEmpty then return ⟨text, [], found⟩
  else
    let r ← Fix.apply settings unit selected
    return ⟨r.unit.text, selected, r.remaining⟩

/-! ## Output -/

def record (o : FixOptions) (changed : Bool) (p : Pass) : Value :=
  .table [
    ("name", .text o.path), ("applied", .list (p.selected.map Finding.record)),
    ("remaining", .list (p.remaining.map Finding.record)),
    ("written", .bool (o.write && changed)),
    ("text", if o.write then .null else .text p.fixed)]

def writtenLines (o : FixOptions) (changed : Bool) (p : Pass) : List String :=
  (if changed then [s!"Fixed {p.selected.length} finding(s) in {o.path}"]
   else [s!"No fixable findings in {o.path}"]) ++
  if p.remaining.isEmpty then []
  else (findingsTable (o.path ++ " (remaining)") p.remaining).lines

def outputOf (o : FixOptions) (changed : Bool) (p : Pass) : Output :=
  if o.json then .record (record o changed p)
  else if o.write then .ofLines (writtenLines o changed p)
  else .text p.fixed

/-! ## The command -/

def run (s : Surroundings) (o : FixOptions) : Except Accident Outcome :=
  orError false (s.settings o.config []) fun settings => do
    let text ← s.text o.path
    orError o.json (pass settings o.path text) fun p =>
      let changed := p.fixed ≠ text
      let written := if o.write && changed then some (o.path, p.fixed) else none
      .ok (.ofPolicy o.strict (!(Finding.blocking p.remaining).isEmpty) (outputOf o changed p)
        written)

end BacktestAudit.CommandLine.Fix
