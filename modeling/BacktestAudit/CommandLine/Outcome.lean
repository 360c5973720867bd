import BacktestAudit.CommandLine.Disk
import BacktestAudit.CommandLine.Table
import BacktestAudit.Data.Json.Printer
import BacktestAudit.Report
import BacktestAudit.Settings.Layers

/-!
What a command comes to: an exit code, what it puts out, and what it writes to a file.
-/
namespace BacktestAudit.CommandLine
open BacktestAudit.Data

/-! ## Outcomes -/

inductive Output where
  | text (s : String)
  | record (v : Value)

structure Outcome where
  code : Nat
  output : Output
  /-- A file with the text that it gets. -/
  written : Option (String × String) := none

/-- Exit codes: all is well, the policy is broken, or the work could not be done. -/
def okCode : Nat := 0

def blockedCode : Nat := 1

def errorCode : Nat := 2

namespace Output

def ofLines (ls : List String) : Output :=
  .text (String.join (ls.map fun l => Text.withoutCursorMoves l ++ "\n"))

def shown : Output → String
  | text s => s
  | record v => Json.print v ++ "\n"

end Output

/-- The outcome of work that was done; strict commands are blocked by what breaks the policy. -/
def Outcome.ofPolicy (strict broken : Bool) (output : Output)
    (written : Option (String × String) := none) : Outcome :=
  ⟨if strict && broken then blockedCode else okCode, output, written⟩

/-! ## Errors -/

def errorLine (s : String) : String := "Error: " ++ s

def errorFields (e : AuditError) : Entries Value := [
  ("error", .text e.kind.name), ("message", .text e.message),
  ("details", .table (e.details.map fun (k, d) => (k, .text d)))]

def Outcome.ofError (json : Bool) (e : AuditError) : Outcome :=
  ⟨errorCode,
    if json then .record (.table (errorFields e)) else .ofLines [errorLine e.display], none⟩

/-- Goes on with what was made; an error ends the work with its outcome, an accident without one. -/
def orError (json : Bool) (r : Except Failure α) (go : α → Except Accident Outcome) :
    Except Accident Outcome :=
  match r with
  | .ok a => go a
  | .error (.error e) => .ok (.ofError json e)
  | .error (.accident a) => .error a

/-! ## Surroundings -/

structure Surroundings where
  disk : Disk
  /-- The settings file in the home directory. -/
  home : Option (List UInt8)
  environment : Entries String

def homeFile : String := ".quantguard.toml"

def projectFile : String := "quantguard.toml"

def Surroundings.settings (s : Surroundings) (config : Option String) (overrides : Entries Value) :
    Except Failure Settings :=
  Settings.load {
    found := [⟨homeFile, s.home⟩, ⟨projectFile, s.disk.bytes? projectFile⟩]
    asked := config.map fun path => ⟨path, s.disk.bytes? path⟩
    environment := s.environment
    overrides := { entries := overrides } }

def Surroundings.text (s : Surroundings) (path : String) : Except Accident String :=
  match (s.disk.bytes? path).bind textOf? with
  | some text => .ok text
  | none => .error .undecodable

/-! ## Findings -/

def linesShown (place : Source.Lines) : String :=
  if place.first = place.last then toString place.first
  else toString place.first ++ "-" ++ toString place.last

def yesIf (b : Bool) : String := if b then "yes" else ""

def findingsTable (title : String) (fs : List Finding) : Table where
  title := some title
  columns := [⟨"Line", .right, 0⟩, ⟨"Rule", .left, 0⟩, ⟨"Severity", .left, 0⟩, ⟨"Code", .left, 0⟩,
    ⟨"Message", .left, 0⟩, ⟨"Fix", .centre, 0⟩]
  rows := fs.map fun f =>
    [linesShown f.place, f.rule, f.severity.name, Text.withoutCursorMoves f.snippet,
      Text.withoutCursorMoves f.message, yesIf f.fixAvailable]

end BacktestAudit.CommandLine
