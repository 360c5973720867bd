import BacktestAudit.CommandLine.Disk
import BacktestAudit.CommandLine.Switch
import BacktestAudit.Data.Number

/-!
What a command line asks for. Arguments that break the rules, or that name files which are not
there, ask for nothing.
-/
namespace BacktestAudit.CommandLine
open BacktestAudit.Data

structure ScanOptions where
  paths : List String
  json : Bool
  strict : Bool
  workers : Option Int
  config : Option String
  disabled : List String
  deriving DecidableEq, Repr

structure FixOptions where
  path : String
  write : Bool
  json : Bool
  strict : Bool
  config : Option String
  deriving DecidableEq, Repr

structure ValidateOptions where
  path : String
  json : Bool
  strict : Bool
  blocks : Option Int
  seed : Option Int
  config : Option String
  deriving DecidableEq, Repr

inductive Request where
  | scan (o : ScanOptions)
  | fix (o : FixOptions)
  | validate (o : ValidateOptions)
  | rules (json : Bool)
  | version
  | help
  /-- Arguments that ask for nothing. -/
  | misuse
  deriving DecidableEq, Repr

namespace Request

/-! ## Values -/

def integerIn? (low high : Option Int) (s : String) : Option Int := do
  let n ← readInt? s
  if low.all (· ≤ n) && high.all (n ≤ ·) then return n else none

/-- The value of a switch, read; a value that cannot be read is a misuse. -/
def read? (g : Given) (s : Switch) (reader : String → Option α) : Option (Option α) :=
  match g.value? s with
  | none => some none
  | some text => (reader text).map some

def existingFile? (d : Disk) (path : String) : Option String :=
  match d.place? path with
  | some (.file _) => some (Path.normal path)
  | _ => none

def exists? (d : Disk) (path : String) : Option String :=
  if (d.place? path).isSome then some path else none

def only? : List String → Option String
  | [argument] => some argument
  | _ => none

/-! ## Commands -/

def scan? (d : Disk) (g : Given) : Option Request := do
  let workers ← read? g .workers (integerIn? (some 1) (some 32))
  let config ← read? g .config (existingFile? d)
  let paths ← g.arguments.mapM (exists? d)
  if paths.isEmpty then none
  else return .scan {
    paths, json := g.has .json, strict := g.has .strict, workers, config
    disabled := g.values .disable }

def fix? (d : Disk) (g : Given) : Option Request := do
  let config ← read? g .config (existingFile? d)
  let path ← existingFile? d (← only? g.arguments)
  return .fix {
    path, write := g.has .write, json := g.has .json, strict := g.has .strict, config }

def validate? (d : Disk) (g : Given) : Option Request := do
  let blocks ← read? g .blocks (integerIn? (some 2) none)
  let seed ← read? g .seed (integerIn? none none)
  let config ← read? g .config (existingFile? d)
  let path ← existingFile? d (← only? g.arguments)
  return .validate {
    path, json := g.has .json, strict := g.has .strict, blocks, seed, config }

def rules? (g : Given) : Option Request :=
  if g.arguments.isEmpty then some (.rules (g.has .json)) else none

/-- The switches of each command, with the request that they make. -/
def command? (d : Disk) (name : String) : Option (List Switch × (Given → Option Request)) :=
  match name with
  | "scan" =>
    some ([.json, .workers, .config, .disable, .strict, .help], scan? d)
  | "fix" => some ([.write, .json, .config, .strict, .help], fix? d)
  | "validate" => some ([.json, .blocks, .seed, .config, .strict, .help], validate? d)
  | "rules" => some ([.json, .help], rules?)
  | _ => none

/-- The first of the switches that end everything else. -/
def early? (g : Given) : Option Request :=
  g.switches.findSome? fun e =>
    match e.1 with
    | .help => some .help
    | .version => some .version
    | _ => none

def ofCommand? (d : Disk) (name : String) (arguments : List String) : Option Request := do
  let (allowed, make) ← command? d name
  let g ← Given.read? allowed true arguments
  (early? g).or (make g)

/-- What arguments ask for: switches of the program, a command, and switches of the command. -/
def ofArguments (d : Disk) (arguments : List String) : Request :=
  match Given.read? [.verbose, .quiet, .version, .help] false arguments with
  | none => .misuse
  | some g =>
    match early? g, g.arguments with
    | some r, _ => r
    | none, name :: rest => (ofCommand? d name rest).getD .misuse
    | none, [] => .misuse

/-- The paths that arguments name: what must be known of the disk to see what they ask for. -/
def pathsNamed (arguments : List String) : List String :=
  let given := do
    let program ← Given.read? [.verbose, .quiet, .version, .help] false arguments
    let name ← program.arguments.head?
    let (allowed, _) ← command? ⟨[], []⟩ name
    Given.read? allowed true program.arguments.tail
  (given.map fun g => g.arguments ++ g.values .config).getD []

end Request
end BacktestAudit.CommandLine
