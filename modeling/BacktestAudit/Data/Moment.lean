import BacktestAudit.Decimal.Rounded

/-!
Dates and times of day, as they stand in configuration files.
-/
namespace BacktestAudit.Data
open BacktestAudit.Decimal

structure Day where
  year : Nat
  month : Nat
  day : Nat
  deriving DecidableEq, Repr

structure Clock where
  hour : Nat
  minute : Nat
  second : Nat
  microsecond : Nat
  deriving DecidableEq, Repr

/-- A day, a time of day, or both; with both there may be an offset from universal time in
minutes. -/
inductive Moment where
  | day (d : Day)
  | clock (c : Clock)
  | full (d : Day) (c : Clock) (offset : Option Int)
  deriving DecidableEq, Repr

namespace Moment

def dayText (d : Day) : String :=
  paddedDigits 4 d.year ++ "-" ++ paddedDigits 2 d.month ++ "-" ++ paddedDigits 2 d.day

def clockText (c : Clock) : String :=
  paddedDigits 2 c.hour ++ ":" ++ paddedDigits 2 c.minute ++ ":" ++ paddedDigits 2 c.second ++
    if c.microsecond = 0 then "" else "." ++ paddedDigits 6 c.microsecond

def offsetText (minutes : Int) : String :=
  (if minutes < 0 then "-" else "+") ++ paddedDigits 2 (minutes.natAbs / 60) ++ ":" ++
    paddedDigits 2 (minutes.natAbs % 60)

def text : Moment → String
  | day d => dayText d
  | clock c => clockText c
  | full d c offset => dayText d ++ " " ++ clockText c ++ ((offset.map offsetText).getD "")

end Moment
end BacktestAudit.Data
