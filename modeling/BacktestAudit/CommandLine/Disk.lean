import BacktestAudit.Text.Bytes

/-!
Files as a command finds them: paths as they are given, and the bytes behind them.
-/
namespace BacktestAudit.Text

def begins (s head : String) : Bool := head.toList.isPrefixOf s.toList

def ends (s tail : String) : Bool := tail.toList.isSuffixOf s.toList

end BacktestAudit.Text

namespace BacktestAudit.CommandLine
open BacktestAudit.Text

/-! ## Paths -/

namespace Path

/-- The names on a path; empty ones and single points lead nowhere. -/
def names (path : String) : List String :=
  ((path.toList.splitOn '/').map String.ofList).filter fun name => name ≠ "" && name ≠ "."

def isAbsolute (path : String) : Bool := begins path "/"

def ofNames (absolute : Bool) (ns : List String) : String :=
  let body := "/".intercalate ns
  if absolute then "/" ++ body else if body.isEmpty then "." else body

def normal (path : String) : String := ofNames (isAbsolute path) (names path)

/-- Two points lead back from the name before them. -/
def goBack (ns : List String) : List String :=
  (ns.foldl (fun acc name =>
    match acc with
    | last :: rest => if name = ".." && last ≠ ".." then rest else name :: acc
    | [] => [name]) []).reverse

def target (path : String) : String := ofNames (isAbsolute path) (goBack (names path))

def namesDirectory (path : String) : Bool := ends path "/" || ends path "/."

def below (path name : String) : String :=
  if path = "." then name else if ends path "/" then path ++ name else path ++ "/" ++ name

def le : List String → List String → Bool
  | [], _ => true
  | _ :: _, [] => false
  | a :: as, b :: bs => if a = b then le as bs else decide (a < b)

end Path

/-! ## Files -/

inductive Place where
  | file (bytes : List UInt8)
  | directory

structure Disk where
  /-- The bytes of files by where their paths lead. -/
  files : List (String × List UInt8)
  /-- Directories besides those that files lie in. -/
  directories : List String

namespace Disk

def place? (d : Disk) (path : String) : Option Place :=
  let key := Path.target path
  if path.isEmpty then none
  else
    match d.files.lookup key with
    | some bytes => if Path.namesDirectory path then none else some (.file bytes)
    | none =>
      if key = "." || key ∈ d.directories || d.files.any (begins ·.1 (key ++ "/")) then
        some .directory
      else none

def bytes? (d : Disk) (path : String) : Option (List UInt8) :=
  match d.place? path with
  | some (.file bytes) => some bytes
  | _ => none

def isDirectory (d : Disk) (path : String) : Bool :=
  match d.place? path with
  | some .directory => true
  | _ => false

/-- The names that lead from a directory to a file below it. -/
def namesBelow? (directory file : String) : Option (List String) :=
  if directory = "." then
    if Path.isAbsolute file then none else some (Path.names file)
  else
    let start := if ends directory "/" then directory else directory ++ "/"
    if begins file start then some (Path.names (String.ofList (file.toList.drop start.length)))
    else none

def suffixOfPrograms : String := ".py"

def programsBelow (d : Disk) (directory : String) : List String :=
  let below := d.files.filterMap fun e => namesBelow? (Path.target directory) e.1
  let programs := below.filter fun ns => ends (ns.getLastD "") suffixOfPrograms
  (programs.mergeSort Path.le).map fun ns =>
    Path.below (Path.normal directory) ("/".intercalate ns)

/-- The files that paths mean: those below directories, and others as they are given. -/
def programs (d : Disk) (paths : List String) : List String :=
  paths.flatMap fun p => if d.isDirectory p then d.programsBelow p else [Path.normal p]

end Disk

/-! ## Text of files -/

def plainBreaks : List Char → List Char
  | '\r' :: '\n' :: rest => '\n' :: plainBreaks rest
  | '\r' :: rest => '\n' :: plainBreaks rest
  | c :: rest => c :: plainBreaks rest
  | [] => []

def textOf? (bytes : List UInt8) : Option String :=
  (decode? bytes).map fun s => String.ofList (plainBreaks s.toList)

end BacktestAudit.CommandLine
