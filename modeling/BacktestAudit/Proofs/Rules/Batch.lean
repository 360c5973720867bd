import BacktestAudit.Proofs.Rules.Accidents
import BacktestAudit.Proofs.Syntax.Parsed

/-!
Batches of units. A batch gives for each unit what analysing the unit alone gives, its findings or its
own error, in the order of the units. But it gives nothing at all when the analysis of one of them
fails by accident.
-/
namespace BacktestAudit.Rules
open BacktestAudit.Data.Outcome BacktestAudit.Syntax BacktestAudit.Flow
set_option autoImplicit false

variable {s : Settings}

/-- What analysing a named text alone gives, as the result of a unit. -/
inductive Alone (s : Settings) : String × String → UnitResult → Prop
  | found {name text : String} {fs : List Finding} (h : analyzeText s text name = .ok fs) :
      Alone s (name, text) ⟨name, .ok fs⟩
  | refused {name text : String} {e : AuditError}
      (h : analyzeText s text name = .error (.error e)) : Alone s (name, text) ⟨name, .error e⟩

/-- What the analysis of a text alone comes to becomes the result of the unit, but for an accident. -/
theorem analyze_item_of_text (name text : String) :
    analyzeItem s (.text name text) = match analyzeText s text name with
      | .ok fs => .ok ⟨name, .ok fs⟩
      | .error (.error e) => .ok ⟨name, .error e⟩
      | .error (.accident a) => .error a := by
  unfold analyzeItem analyzeText
  cases hparse : SourceUnit.parse text name with
  | error e =>
    simp only [hparse, Except.mapError]
    rfl
  | ok unit =>
    simp only [hparse, Except.mapError]
    cases analyze s unit <;> rfl

theorem analyze_item_eq_ok {name text : String} {r : UnitResult} :
    analyzeItem s (.text name text) = .ok r ↔ Alone s (name, text) r := by
  rw [analyze_item_of_text]
  constructor
  · intro h
    split at h
    · next fs hfs =>
      injection h with h
      exact h ▸ .found hfs
    · next e he =>
      injection h with h
      exact h ▸ .refused he
    · cases h
  · intro h
    cases h with
    | found h => rw [h]
    | refused h => rw [h]

theorem alone_iff {name text : String} : (∃ r, Alone s (name, text) r) ↔
    ∀ unit, SourceUnit.parse text name = .ok unit → Analyzable s unit := by
  constructor
  · rintro ⟨r, h⟩ unit hparse
    refine analyzable_iff.mp ?_
    cases hunit : analyze s unit with
    | ok fs => exact ⟨fs, rfl⟩
    | error a =>
      have htext : analyzeText s text name = .error (.accident a) := by
        simp only [analyzeText, hparse, hunit, Except.mapError]
      cases h with
      | found h => rw [htext] at h; nomatch h
      | refused h => rw [htext] at h; nomatch h
  · intro h
    cases hparse : SourceUnit.parse text name with
    | error e =>
      have htext : analyzeText s text name = .error (.error (.ofParse e)) := by
        simp only [analyzeText, hparse]
      exact ⟨_, .refused htext⟩
    | ok unit =>
      obtain ⟨fs, hfs⟩ := analyzable_iff.mpr (h unit hparse)
      have htext : analyzeText s text name = .ok fs := by
        simp only [analyzeText, hparse, hfs, Except.mapError]
      exact ⟨_, .found htext⟩

def itemOf (unit : String × String) : Item := .text unit.1 unit.2

/-- A batch gives for every unit, in their order, the result that the unit has alone, whatever the
number of workers. It gives results unless the analysis of a unit that parses fails by accident. -/
theorem batch_of_alone (s : Settings) (workers : Option Int) (hworkers : ∀ n ∈ workers, 1 ≤ n)
    (units : List (String × String)) :
    (∀ rs, analyzeAll s workers (units.map itemOf) = .ok rs ↔ List.Forall₂ (Alone s) units rs) ∧
      ((∃ rs, analyzeAll s workers (units.map itemOf) = .ok rs) ↔
        ∀ unit ∈ units, ∀ u, SourceUnit.parse unit.2 unit.1 = .ok u → Analyzable s u) := by
  -- The number of workers is only checked; the units are analysed in their order.
  have hsteps : analyzeAll s workers (units.map itemOf) =
      (units.map itemOf).mapM (analyzeItem s) := by
    cases workers with
    | none => rfl
    | some n =>
      have hn := hworkers n rfl
      simp [analyzeAll, Int.not_lt.mpr (Int.le_trans Int.one_nonneg hn)]
  have hresults : ∀ rs, analyzeAll s workers (units.map itemOf) = .ok rs ↔
      List.Forall₂ (Alone s) units rs := by
    intro rs
    rw [hsteps, mapM_eq_ok_iff, List.forall₂_map_left_iff]
    simp only [itemOf, analyze_item_eq_ok]
  refine ⟨hresults, ?_⟩
  simp only [hresults]
  constructor
  · rintro ⟨rs, hrs⟩ ⟨name, text⟩ hmem
    obtain ⟨r, _, hr⟩ := exists_right_of_mem hrs hmem
    exact alone_iff.mp ⟨r, hr⟩
  · intro h
    exact exists_related fun unit hmem => alone_iff.mpr (h unit hmem)

/-- A unit that is no program between two that are. -/
def threeTexts : List (String × String) :=
  [("a.py", "position = signal\n"), ("b.py", "x = (\n"), ("c.py", "y = price.shift(-1)\n")]

theorem three_texts_batch_of_alone :
    ∃ rs, analyzeAll .standard (some 4) (threeTexts.map itemOf) = .ok rs ∧
      List.Forall₂ (Alone .standard) threeTexts rs := by
  have hends : ∀ unit ∈ threeTexts, (SourceUnit.parse unit.2 unit.1).toOption.all
      (fun u => (analyze .standard u).toOption.isSome) = true := by
    decide +kernel
  obtain ⟨hresults, hexists⟩ := batch_of_alone .standard (some 4) (by decide) threeTexts
  obtain ⟨rs, hrs⟩ := hexists.mpr fun unit hmem u hparse => by
    have hu := hends unit hmem
    refine analyzable_iff.mp ?_
    cases hfs : analyze .standard u with
    | ok fs => exact ⟨fs, rfl⟩
    | error a =>
      rw [hparse, Except.toOption, Option.all_some, hfs] at hu
      cases hu
  exact ⟨rs, hrs, (hresults rs).mp hrs⟩

/-- A fill by an empty list, and a unit with a finding. -/
def fillTexts : List (String × String) :=
  [("a.py", "x = y.fillna(method=[])\n"), ("b.py", "position = signal\n")]

/-- The first unit takes the results of the batch away, the findings of the second with them. -/
theorem fill_by_list_stops_batch :
    (∃ a, analyzeAll .standard (some 1) (fillTexts.map itemOf) = .error a) ∧
      ∃ fs, analyzeText .standard "position = signal\n" "b.py" = .ok fs ∧
        fs.map Finding.key = [⟨"LB001", ⟨1, 1⟩⟩] := by
  have hfacts : (analyzeAll .standard (some 1) (fillTexts.map itemOf)).toOption.isNone = true ∧
      (analyzeText .standard "position = signal\n" "b.py").toOption.map (·.map Finding.key) =
        some [⟨"LB001", ⟨1, 1⟩⟩] := by
    decide +kernel
  obtain ⟨hbatch, hsecond⟩ := hfacts
  constructor
  · cases hrs : analyzeAll .standard (some 1) (fillTexts.map itemOf) with
    | error a => exact ⟨a, rfl⟩
    | ok rs =>
      rw [hrs] at hbatch
      cases hbatch
  · cases hfs : analyzeText .standard "position = signal\n" "b.py" with
    | error e =>
      rw [hfs] at hsecond
      cases hsecond
    | ok fs =>
      rw [hfs] at hsecond
      exact ⟨fs, rfl, Option.some.inj hsecond⟩

end BacktestAudit.Rules
