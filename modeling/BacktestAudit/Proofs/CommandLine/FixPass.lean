import BacktestAudit.CommandLine.Fix
import BacktestAudit.Proofs.Fix.Foreign

/-!
One pass over the fixes of a program, and the run that makes it. A pass that has nothing to mend is a
pass over no findings.
-/
namespace BacktestAudit.CommandLine.Fix
open BacktestAudit.Text BacktestAudit.Syntax BacktestAudit.Rules BacktestAudit.Fix BacktestAudit.Data.Outcome
set_option autoImplicit false

/-! ## Passes -/

theorem splice_nil (text : String) : splice text [] = .ok text := by
  have hdecode : decode? (spliceBytes (encode text) ((ordered []).map (·.edit))) = some text :=
    decode_encode text
  have hcollision : collision? (ordered []) = none := rfl
  simp only [splice, hcollision, hdecode]

/-- Without findings to mend a program stays as it is. -/
theorem apply_nil {settings : Settings} {text name : String} {unit : SourceUnit}
    (hunit : SourceUnit.parse text name = .ok unit) {found : List Finding}
    (hfound : analyze settings unit = .ok found) :
    Fix.apply settings unit [] = .ok ⟨unit, [], found⟩ := by
  obtain ⟨rfl, rfl, _⟩ := SourceUnit.parse_eq_ok hunit
  exact apply_eq_ok.mpr ⟨nofun, unit.text, splice_nil _, hunit, hfound, fun _ _ => nofun, rfl⟩

/-- A pass analyses a program and makes the selected fixes at once. -/
theorem pass_eq (settings : Settings) (name text : String) :
    pass settings name text = (do
      let unit ← (SourceUnit.parse text name).mapError fun e => .error (.ofParse e)
      let found ← (analyze settings unit).mapError .accident
      let r ← Fix.apply settings unit (select found).selected
      return ⟨r.unit.text, (select found).selected, r.remaining⟩) := by
  unfold pass
  cases hunit : SourceUnit.parse text name with
  | error e => rfl
  | ok unit =>
    cases hfound : analyze settings unit with
    | error a =>
      simp only [Except.mapError, hfound, bind, Except.bind]
    | ok found =>
      simp only [Except.mapError, hfound, bind, Except.bind]
      split
      · next hnone =>
        rw [List.isEmpty_iff.mp hnone, apply_nil hunit hfound, ← (SourceUnit.parse_eq_ok hunit).1]
      · rfl

theorem pass_eq_ok {settings : Settings} {name text : String} {p : Pass} :
    pass settings name text = .ok p ↔ ∃ unit found r, SourceUnit.parse text name = .ok unit ∧
      analyze settings unit = .ok found ∧ Fix.apply settings unit (select found).selected = .ok r ∧
      p = ⟨r.unit.text, (select found).selected, r.remaining⟩ := by
  rw [pass_eq]
  simp only [bind_eq_ok, map_error_eq_ok]
  constructor
  · rintro ⟨unit, hunit, found, hfound, r, happly, hp⟩
    exact ⟨unit, found, r, hunit, hfound, happly, (Except.ok.inj hp).symm⟩
  · rintro ⟨unit, found, r, hunit, hfound, happly, rfl⟩
    exact ⟨unit, hunit, found, hfound, r, happly, rfl⟩

def outcomeOf (o : FixOptions) (text : String) (p : Pass) : Outcome :=
  .ofPolicy o.strict (!(Finding.blocking p.remaining).isEmpty) (outputOf o (p.fixed ≠ text) p)
    (if o.write && p.fixed ≠ text then some (o.path, p.fixed) else none)

end BacktestAudit.CommandLine.Fix
