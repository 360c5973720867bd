import BacktestAudit.Data.Toml
import BacktestAudit.Settings
import BacktestAudit.Settings.Environment
import BacktestAudit.Text.Bytes

/-!
Settings in layers: files, environment variables and what a caller asks for. A later layer wins over
an earlier one, field by field; sections are merged by their own fields.
-/
namespace BacktestAudit.Settings
open BacktestAudit.Data BacktestAudit.Text

/-- A settings file: its name, and its bytes if it exists. -/
structure File where
  path : String
  bytes : Option (List UInt8)

/-- What a caller asks for; whole sections win over what all layers give for them. -/
structure Overrides where
  entries : Entries Value
  patterns : Option PatternSettings := none
  statistics : Option StatisticsSettings := none

structure Layers where
  /-- Files that are read if they exist, the first winning least. -/
  found : List File
  /-- A file that has to exist. -/
  asked : Option File
  environment : Entries String
  overrides : Overrides

/-! ## Merging -/

/-- Lays an entry over others; a section over a section is merged field by field. -/
def mergeEntry (target : Entries Value) (entry : String × Value) : Entries Value :=
  match entry.2, Entries.get? target entry.1 with
  | .table new, some (.table old) => Entries.insert target entry.1 (.table (Entries.override old new))
  | v, _ => Entries.insert target entry.1 v

def merge (target layer : Entries Value) : Entries Value := layer.foldl mergeEntry target

def mergeAll (layers : List (Entries Value)) : Entries Value := layers.foldl merge []

/-! ## Reading -/

def refuse (reason : String) (source : Option String) : Except Failure α :=
  .error (.error (.configuration reason source))

def readBytes (path : String) (bytes : List UInt8) : Except Failure (Entries Value) :=
  match decode? bytes with
  | none => .error (.accident .undecodable)
  | some text =>
    match Toml.parse text with
    | .ok entries => .ok entries
    | .error .malformed => refuse "unreadable" (some path)
    | .error .tooLong => .error (.accident .wrongValue)

def readFound (f : File) : Except Failure (Entries Value) :=
  match f.bytes with
  | some bytes => readBytes f.path bytes
  | none => .ok []

def readAsked (f : Option File) : Except Failure (Entries Value) :=
  match f with
  | none => .ok []
  | some ⟨path, some bytes⟩ => readBytes path bytes
  | some ⟨path, none⟩ => refuse "config file not found" (some path)

def readVariables (environment : Entries String) : Except Failure (Entries Value) :=
  match ofVariables environment with
  | .ok entries => .ok entries
  | .error name => refuse s!"invalid {name}" none

/-- The entries of each layer, in the order in which they win over each other. -/
def Layers.entries (l : Layers) : Except Failure (List (Entries Value)) := do
  let found ← l.found.mapM readFound
  let asked ← readAsked l.asked
  let fromEnvironment ← readVariables l.environment
  return found ++ [asked, fromEnvironment, l.overrides.entries]

/-! ## Loading -/

def failureOf : SettingsFault → Failure
  | .unknownField section_ name =>
    .error (.configuration s!"{section_}.__init__() got an unexpected keyword argument '{name}'" none)
  | .wrongKind => .error (.configuration "TypeError" none)
  | .outOfRange => .accident .outOfRange
  | .unwritable => .accident .wrongValue
  | .refused reason => .error (.configuration reason none)

/-- A section: a whole one that is asked for, or what the entries give if they are a table. -/
def sectionOf (whole : Option α) (entries : Entries Value) (name : String)
    (make : Entries Value → Except SettingsFault α) (standard : α) : Except SettingsFault α :=
  match whole with
  | some s => .ok s
  | none =>
    match Entries.get? entries name with
    | some (.table es) => make es
    | _ => .ok standard

def ofMerged (o : Overrides) (entries : Entries Value) : Except SettingsFault Settings := do
  let patterns ← sectionOf o.patterns entries "patterns" PatternSettings.ofEntries .standard
  let statistics ← sectionOf o.statistics entries "statistics" StatisticsSettings.ofEntries .standard
  ofEntries entries patterns statistics

def load (l : Layers) : Except Failure Settings := do
  let layers ← l.entries
  (ofMerged l.overrides (mergeAll layers)).mapError failureOf

end BacktestAudit.Settings
