import BacktestAudit.CommandLine
import BacktestAudit.Proofs.CommandLine.FixPass
import BacktestAudit.Proofs.Fix.OnePass

/-!
What the disk holds after a command that fixes a file. Nothing is changed but the file, and the file
only where its text had the spans of the findings that were mended, but for line breaks: the text that
is written back has one kind of them.
-/
namespace BacktestAudit.CommandLine
open BacktestAudit.Source BacktestAudit.Text BacktestAudit.Syntax BacktestAudit.Rules
  BacktestAudit.Fix BacktestAudit.Data.Outcome
set_option autoImplicit false

/-! ## Files -/

/-- Whether a command could not do its work: it tells of an error, or ends in an accident. -/
def failed : Except Accident Outcome → Bool
  | .ok o => o.code = errorCode
  | .error _ => true

/-! ## Texts of files -/

namespace Fix

/-- Mending a finding that was reported changes the text. -/
theorem text_of_apply_ne {settings : Settings} {text name : String} {unit : SourceUnit}
    (hunit : SourceUnit.parse text name = .ok unit) {found : List Finding}
    (hfound : analyze settings unit = .ok found) {fs : List Finding} {f : Finding} (hf : f ∈ fs)
    (hreported : f ∈ found) {r : FixResult} (happly : apply settings unit fs = .ok r) :
    r.unit.text ≠ text := by
  intro hsame
  obtain ⟨_, text', _, hparse, hremaining, hcleared, _⟩ := apply_eq_ok.mp happly
  obtain ⟨_, hname, _⟩ := SourceUnit.parse_eq_ok hunit
  obtain ⟨htext', _⟩ := SourceUnit.parse_eq_ok hparse
  rw [← htext', hsame, hname, hunit] at hparse
  obtain rfl := Except.ok.inj hparse
  rw [hfound] at hremaining
  obtain rfl := Except.ok.inj hremaining
  exact hcleared f hreported (List.mem_map_of_mem hf)

variable {s : Surroundings} {o : FixOptions}

end Fix

def withFile (text : String) : Surroundings := ⟨⟨[("a.py", encode text)], []⟩, none, []⟩

end BacktestAudit.CommandLine
