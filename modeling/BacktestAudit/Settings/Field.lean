import BacktestAudit.Data.Display
import BacktestAudit.Error

/-!
Settings as they are given: entries by the name of their field. What is given is checked field by
field, and the first fault found is the one that is told.
-/
namespace BacktestAudit
open BacktestAudit.Data

inductive SettingsFault where
  /-- A field that the section does not have. -/
  | unknownField (section_ field : String)
  /-- A value of a kind that the field cannot use. -/
  | wrongKind
  /-- An integer beyond the range of doubles. -/
  | outOfRange
  /-- An integer with more digits than are written. -/
  | unwritable
  /-- A value that the field does not allow. -/
  | refused (reason : String)
  deriving DecidableEq, Repr

namespace SettingsFault

def toFailure : SettingsFault → Failure
  | unknownField .. | wrongKind => .accident .wrongKind
  | outOfRange => .accident .outOfRange
  | unwritable => .accident .wrongValue
  | refused reason => .error (.configuration reason none)

end SettingsFault

namespace Settings

/-- The entries of a section, if all of them name fields of it. -/
def checkFields (section_ : String) (fields : List String) (entries : Entries Value) :
    Except SettingsFault Unit :=
  match entries.find? fun e => e.1 ∉ fields with
  | some (name, _) => .error (.unknownField section_ name)
  | none => .ok ()

def field (entries : Entries Value) (name : String) (default : Value) : Value :=
  (Entries.get? entries name).getD default

/-- The items that a value lists; a table lists its keys, and a text is a list of its own. -/
def texts (v : Value) : Except SettingsFault (List String) :=
  match v with
  | .text s => .ok [s]
  | .list items =>
    if Value.areWritable items then .ok (items.map Value.asText) else .error .unwritable
  | .table entries => .ok (Entries.keys entries)
  | _ => .error .wrongKind

def number (v : Value) : Except SettingsFault Number :=
  match v.number? with
  | some n => .ok n
  | none => .error .wrongKind

def checkedNumber (v : Value) (condition : Number → Bool) (reason : String) :
    Except SettingsFault Number := do
  let n ← number v
  if condition n then return n else throw (.refused reason)

theorem checked_number_ok {v : Value} {condition : Number → Bool} {reason : String} {n : Number}
    (h : checkedNumber v condition reason = .ok n) : condition n = true ∧ v.number? = some n := by
  unfold checkedNumber number at h
  cases hv : v.number? with
  | none => simp [hv, bind, Except.bind] at h
  | some m =>
    simp only [hv, bind, Except.bind] at h
    split at h
    · next hc =>
      cases h
      exact ⟨hc, rfl⟩
    · cases h

end Settings
end BacktestAudit
