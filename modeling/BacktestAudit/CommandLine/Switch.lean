/-!
Switches of a command line. A switch has names of one letter and of several; some take a value, which
stands behind the name or is the next argument.
-/
namespace BacktestAudit.CommandLine

inductive Switch where
  | verbose
  | quiet
  | version
  | help
  | json
  | write
  | strict
  | config
  | workers
  | disable
  | blocks
  | seed
  deriving DecidableEq, Repr

namespace Switch

def name : Switch → String
  | verbose => "--verbose"
  | quiet => "--quiet"
  | version => "--version"
  | help => "--help"
  | json => "--json"
  | write => "--write"
  | strict => "--strict"
  | config => "--config"
  | workers => "--workers"
  | disable => "--disable"
  | blocks => "--blocks"
  | seed => "--seed"

def letter? : Switch → Option Char
  | verbose => some 'v'
  | quiet => some 'q'
  | config => some 'c'
  | workers => some 'w'
  | _ => none

def takesValue : Switch → Bool
  | config | workers | disable | blocks | seed => true
  | _ => false

end Switch

/-- What arguments give: switches with their values, in order, and the other arguments. -/
structure Given where
  switches : List (Switch × String)
  arguments : List String

namespace Given

def has (g : Given) (s : Switch) : Bool := g.switches.any (·.1 = s)

def values (g : Given) (s : Switch) : List String :=
  (g.switches.filter (·.1 = s)).map (·.2)

/-- The last value that a switch is given. -/
def value? (g : Given) (s : Switch) : Option String := (g.values s).getLast?

def withSwitches (found : List (Switch × String)) (g : Given) : Given :=
  { g with switches := found ++ g.switches }

def withArgument (argument : String) (g : Given) : Given :=
  { g with arguments := argument :: g.arguments }

/-- What an argument says: switches with their values, and one that waits for its value. -/
structure Spoken where
  found : List (Switch × String)
  waiting : Option Switch

/-- Letters behind a single dash: flags, and at last one that takes what is left as its value. -/
def readLetters? (allowed : List Switch) : List Char → Option Spoken
  | [] => some ⟨[], none⟩
  | c :: rest => do
    let s ← allowed.find? (·.letter? = some c)
    if s.takesValue then
      if rest.isEmpty then return ⟨[], some s⟩ else return ⟨[(s, String.ofList rest)], none⟩
    else
      let more ← readLetters? allowed rest
      return { more with found := (s, "") :: more.found }

/-- A name behind two dashes, with a value behind an equals sign if it has one there. -/
def readName? (allowed : List Switch) (argument : List Char) : Option Spoken := do
  let name := argument.takeWhile (· ≠ '=')
  let value := argument.dropWhile (· ≠ '=')
  let s ← allowed.find? (·.name = String.ofList name)
  match value with
  | [] => if s.takesValue then return ⟨[], some s⟩ else return ⟨[(s, "")], none⟩
  | _ :: value => if s.takesValue then return ⟨[(s, String.ofList value)], none⟩ else none

def readSwitch? (allowed : List Switch) (argument : List Char) : Option Spoken :=
  match argument with
  | '-' :: '-' :: _ => readName? allowed argument
  | _ :: letters => readLetters? allowed letters
  | [] => none

def isSwitch (argument : String) : Bool :=
  match argument.toList with
  | '-' :: _ :: _ => true
  | _ => false

/-- Reads arguments; nothing comes of those that break the rules. With `mixed`, switches may stand
behind other arguments. Two dashes end the switches. -/
def read? (allowed : List Switch) (mixed : Bool) : List String → Option Given
  | [] => some ⟨[], []⟩
  | argument :: rest =>
    if argument = "--" then some ⟨[], rest⟩
    else if isSwitch argument then do
      let spoken ← readSwitch? allowed argument.toList
      match spoken.waiting, rest with
      | none, rest => (withSwitches spoken.found) <$> read? allowed mixed rest
      | some _, [] => none
      | some s, value :: rest =>
        (withSwitches (spoken.found ++ [(s, value)])) <$> read? allowed mixed rest
    else if mixed then (withArgument argument) <$> read? allowed mixed rest
    else some ⟨[], argument :: rest⟩

end Given
end BacktestAudit.CommandLine
