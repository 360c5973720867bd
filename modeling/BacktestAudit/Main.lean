import BacktestAudit.CommandLine

/-!
The program: it looks at what a command line can see, and does what the outcome says.
-/
namespace BacktestAudit.CommandLine

/-! ## Looking -/

/-- Directories that lie deeper than this one below the other are not looked at. -/
def deepest : Nat := 100

def fileBytes? (path : String) : IO (Option (List UInt8)) := do
  match ← (IO.FS.readBinFile path).toBaseIO with
  | .ok bytes => return some bytes.toList
  | .error _ => return none

def namesIn? (path : String) : IO (Option (List String)) := do
  let entries := do (← IO.FS.realPath path).readDir
  match ← entries.toBaseIO with
  | .ok es => return some (es.toList.map (·.fileName))
  | .error _ => return none

def Disk.withFile (path : String) (bytes : List UInt8) (d : Disk) : Disk :=
  { d with files := d.files ++ [(Path.target path, bytes)] }

def Disk.withDirectory (path : String) (d : Disk) : Disk :=
  { d with directories := d.directories ++ [Path.target path] }

/-- Adds what is at a path. Of what lies below a directory only programs are of use. -/
def look (path : String) (named : Bool) (d : Disk) : Nat → IO Disk
  | 0 => return d
  | depth + 1 => do
    match ← namesIn? path with
    | some names =>
      names.foldlM (fun d name => look (Path.below path name) false d depth) (d.withDirectory path)
    | none =>
      if named || Text.ends path Disk.suffixOfPrograms then
        match ← fileBytes? path with
        | some bytes => return d.withFile path bytes
        | none => return d
      else return d

def lookAt (paths : List String) : IO Disk :=
  paths.foldlM (fun d path => look path true d deepest) ⟨[], []⟩

def lookAtHome : IO (Option (List UInt8)) := do
  match ← IO.getEnv "HOME" with
  | some directory => fileBytes? (Path.below directory homeFile)
  | none => return none

def lookAtVariables : IO (List (String × String)) :=
  Settings.variableNames.filterMapM fun name => do
    return (← IO.getEnv name).map fun text => (name, text)

/-! ## Doing -/

def accidentLine : String := "Error: a value could not be used"

def conclude (r : Except Accident Outcome) : IO UInt32 := do
  match r with
  | .ok o =>
    match o.written with
    | some (path, text) => IO.FS.writeFile path text
    | none => pure ()
    IO.print o.output.shown
  | .error _ => IO.eprintln accidentLine
  return (exitCode r).toUInt32

end BacktestAudit.CommandLine

open BacktestAudit.CommandLine in
def main (arguments : List String) : IO UInt32 := do
  let disk ← lookAt (projectFile :: Request.pathsNamed arguments)
  let surroundings : Surroundings := ⟨disk, ← lookAtHome, ← lookAtVariables⟩
  match Request.ofArguments disk arguments with
  | .misuse =>
    helpLines.forM fun line => IO.eprintln line
    return errorCode.toUInt32
  | request => conclude (perform surroundings request)
