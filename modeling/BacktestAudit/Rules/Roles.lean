import BacktestAudit.Settings.Patterns
import BacktestAudit.Text.Glob
import BacktestAudit.Text.Lower

/-!
The roles that columns play, as their names tell. Letter case makes no difference.
-/
namespace BacktestAudit.Rules
open BacktestAudit.Text

structure Roles where
  position : List Glob
  signal : List Glob
  credential : List Glob

namespace Roles

def globs (patterns : List String) : List Glob := patterns.map fun p => .ofString (lower p)

def ofSettings (s : PatternSettings) : Roles :=
  { position := globs s.position, signal := globs s.signal, credential := globs s.credential }

def fits (patterns : List Glob) (name : String) : Bool :=
  let cs := (lower name).toList
  patterns.any (·.isMatch cs)

def isPosition (r : Roles) (name : String) : Bool := fits r.position name

/-- A name that fits both kinds is a position. -/
def isSignal (r : Roles) (name : String) : Bool := fits r.signal name && !r.isPosition name

def isCredential (r : Roles) (name : String) : Bool := fits r.credential name

theorem not_signal_of_position {r : Roles} {name : String} (h : r.isPosition name = true) :
    r.isSignal name = false := by
  simp [isSignal, h]

end Roles
end BacktestAudit.Rules
