/-!
Messages about the work, by level and by the part of the program they come from. A file keeps those
of parts of the program from a level on.
-/
namespace BacktestAudit.Log

inductive Level where
  | debug
  | info
  | warning
  | error
  | critical
  deriving DecidableEq, Repr

namespace Level

def all : List Level := [debug, info, warning, error, critical]

def number : Level → Nat
  | debug => 10
  | info => 20
  | warning => 30
  | error => 40
  | critical => 50

def name : Level → String
  | debug => "DEBUG"
  | info => "INFO"
  | warning => "WARNING"
  | error => "ERROR"
  | critical => "CRITICAL"

/-- The level that callers ask for: quiet wins over verbose. -/
def asked (verbose quiet : Bool) : Level :=
  if quiet then error else if verbose then debug else warning

end Level

def root : String := "quantguard"

def fullName (part : Option String) : String :=
  match part with
  | none => root
  | some name => if name.startsWith root then name else root ++ "." ++ name

def isPart (name : String) : Bool := name = root || name.startsWith (root ++ ".")

structure Message where
  part : Option String
  level : Level
  text : String
  deriving DecidableEq, Repr

def isKept (least : Level) (m : Message) : Bool :=
  isPart (fullName m.part) && least.number ≤ m.level.number

/-- The line of a message without its time. -/
def line (m : Message) : String := fullName m.part ++ " - " ++ m.level.name ++ " - " ++ m.text

def written (least : Level) (ms : List Message) : List String :=
  (ms.filter (isKept least)).map line

end BacktestAudit.Log
