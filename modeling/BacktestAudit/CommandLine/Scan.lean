import BacktestAudit.CommandLine.Outcome
import BacktestAudit.CommandLine.Request
import BacktestAudit.Rules.Evaluation

/-!
Scanning: programs are analysed one by one, and what is found is told file by file. A file that
cannot be read, or that is no program, is told as an error and leaves the others alone.
-/
namespace BacktestAudit.CommandLine.Scan
open BacktestAudit.Data BacktestAudit.Rules

structure FileError where
  name : String
  fields : Entries Value

namespace FileError

def unreadableMessage : String := "'utf-8' codec can't decode byte"

def unreadable (name : String) : FileError :=
  ⟨name, [("error", .text "UnicodeDecodeError"), ("message", .text unreadableMessage),
    ("details", .table [])]⟩

def ofError (name : String) (e : AuditError) : FileError := ⟨name, errorFields e⟩

def record (e : FileError) : Value := .table (("name", .text e.name) :: e.fields)

def message (e : FileError) : String :=
  match Entries.get? e.fields "message" with
  | some (.text s) => s
  | _ => ""

end FileError

/-- Files that could be read, and errors about the others. -/
def readAll (s : Surroundings) (paths : List String) : List Item × List FileError :=
  let read := paths.map fun p => (p, s.text p)
  (read.filterMap fun (p, r) => r.toOption.map (Item.text p),
   read.filterMap fun (p, r) => if r.toOption.isNone then some (.unreadable p) else none)

def sessionOf (rs : List UnitResult) : Session :=
  rs.foldl (fun session r =>
    match r.outcome with
    | .ok fs => session.add r.name (.make fs none)
    | .error _ => session) .empty

def errorsOf (rs : List UnitResult) : List FileError :=
  rs.filterMap fun r =>
    match r.outcome with
    | .ok _ => none
    | .error e => some (.ofError r.name e)

/-! ## Output -/

def record (session : Session) (errors : List FileError) : Value :=
  .table (session.fields ++ [("errors", .list (errors.map FileError.record))])

def summary (session : Session) : String :=
  let total := (session.reports.flatMap (·.2.findings)).length
  let stops := (session.reports.flatMap (·.2.stopFindings)).length
  s!"{total} finding(s) in {session.size} file(s)" ++ if stops = 0 then "" else s!", {stops} STOP"

/-- The findings of each file that has some, then the errors, then how many there are. -/
def shownLines (session : Session) (errors : List FileError) : List String :=
  let found := session.reports.filter fun e => !e.2.findings.isEmpty
  if found.isEmpty && errors.isEmpty then [s!"No findings in {session.size} file(s)"]
  else
    found.flatMap (fun (name, r) => (findingsTable name r.findings).lines ++ [""]) ++
      errors.map (fun e => errorLine (e.name ++ ": " ++ e.message)) ++ [summary session]

def outcomeOf (o : ScanOptions) (session : Session) (errors : List FileError) : Outcome :=
  let output :=
    if o.json then Output.record (record session errors) else .ofLines (shownLines session errors)
  if errors.isEmpty then .ofPolicy o.strict session.hasBlocking output
  else ⟨errorCode, output, none⟩

/-! ## The command -/

def overrides (o : ScanOptions) : Entries Value :=
  (if o.disabled.isEmpty then [] else [("disabled_rules", .list (o.disabled.map Value.text))]) ++
    (o.workers.map fun n => ("workers", Value.int n)).toList

def run (s : Surroundings) (o : ScanOptions) : Except Accident Outcome :=
  orError false (s.settings o.config (overrides o)) fun settings => do
    let (items, unreadable) := readAll s (s.disk.programs o.paths)
    let results ← analyzeAll settings o.workers items
    return outcomeOf o (sessionOf results) (unreadable ++ errorsOf results)

end BacktestAudit.CommandLine.Scan
