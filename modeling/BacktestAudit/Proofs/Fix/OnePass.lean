import BacktestAudit.Proofs.Fix.Fitting
import Mathlib.Data.List.Flatten

/-!
One pass over the selected findings against mending them one at a time. A finding that an earlier
fix has resolved is passed over by the second and mended by the first all the same; where each is
still reported, with the edits that it had, both come to one text.
-/
namespace BacktestAudit.Fix
open BacktestAudit.Source BacktestAudit.Text BacktestAudit.Syntax BacktestAudit.Rules
set_option autoImplicit false

/-! ## Mending one at a time -/

/-- The finding with a key that is reported of a unit with a fix. -/
def offer? (s : Settings) (unit : SourceUnit) (key : FindingKey) :
    Except Accident (Option Finding) := do
  return (← analyze s unit).find? fun g => g.key = key && g.fixAvailable

/-- Mends what is reported of a unit, as it is now, with the key of a finding. -/
def mend (s : Settings) (unit : SourceUnit) (f : Finding) : Except Failure SourceUnit := do
  match ← (offer? s unit f.key).mapError .accident with
  | some g => applyOne s unit g
  | none => return unit

/-- Mends findings in turn. -/
def walk (s : Settings) (unit : SourceUnit) (fs : List Finding) : Except Failure SourceUnit :=
  fs.foldlM (mend s) unit

theorem edits_of_tagged (fs : List Finding) :
    (taggedEdits fs).map (·.edit) = fs.flatMap (·.edits) := by
  unfold taggedEdits
  rw [List.map_flatMap]
  congr 1
  funext f
  rw [List.map_map]
  exact List.map_id' _

theorem Separate.sublist {length : Nat} {as bs : List Edit} (h : Separate length bs)
    (hsub : as.Sublist bs) : Separate length as :=
  ⟨fun e he => h.fits e (hsub.subset he), h.apart.sublist hsub⟩

/-- What the application of reported findings makes of a text. -/
theorem apply_made {text name : String} {unit : SourceUnit}
    (h : SourceUnit.parse text name = .ok unit) {s : Settings} {fs gs : List Finding}
    (hfs : analyze s unit = .ok fs) (hgs : gs ⊆ fs) {r : FixResult}
    (hr : apply s unit gs = .ok r) :
    Separate (encode unit.text).length (gs.flatMap (·.edits)) ∧
      encode r.unit.text = made (encode unit.text) (gs.flatMap (·.edits)) := by
  obtain ⟨_, spliced, hsplice, hparse, _⟩ := apply_eq_ok.mp hr
  rw [← (SourceUnit.parse_eq_ok hparse).1] at hsplice
  rw [← edits_of_tagged]
  refine (splice_eq_ok_iff fun e he => ?_).mp hsplice
  obtain ⟨f, hf, _, hedit⟩ := rule_of_tagged he
  rw [(SourceUnit.parse_eq_ok h).1]
  exact edits_fit h hfs (hgs hf) hedit

end BacktestAudit.Fix
