import BacktestAudit.Fix.Application
import BacktestAudit.Proofs.Fix.Weave
import BacktestAudit.Proofs.Flow.Sources
import BacktestAudit.Proofs.Rules.Reported
import BacktestAudit.Proofs.Syntax.Parsed

/-!
What comes of the fix that a finding offers. It is never refused for want of edits or for a text that
the finding does not belong to; it stands when its edits can be made together, leave a program, and
the finding is not reported of that program again.
-/
namespace BacktestAudit.Fix
open BacktestAudit.Data.Outcome BacktestAudit.Source BacktestAudit.Syntax BacktestAudit.Flow
  BacktestAudit.Rules BacktestAudit.Text
set_option autoImplicit false

/-! ## Reported findings -/

theorem unit_of_graph (unit : SourceUnit) : (Graph.ofUnit unit).unit = unit := by
  have inv : Invariant (fun p => p.graph.unit = unit) fun _ _ => True :=
    { absorb := fun _ _ h => h
      derive := fun _ _ h => h
      record := fun _ _ _ _ _ h _ => h
      resolve := fun _ _ _ => trivial
      read_absorb := fun _ _ _ _ => trivial
      read_derive := fun _ _ _ _ => trivial
      read_record := fun _ _ _ _ _ _ _ _ => trivial }
  exact inv.visit_all _ ⟨Graph.start unit, []⟩ unit.statements rfl

/-- A reported finding is what a rule makes of one of its matches. -/
theorem exists_match_of_mem {s : Settings} {unit : SourceUnit} {fs : List Finding}
    (h : analyze s unit = .ok fs) {f : Finding} (hf : f ∈ fs) :
    ∃ r ms m, r.findMatches (context s (Graph.ofUnit unit)) (Graph.ofUnit unit) = .ok ms ∧
      m ∈ ms ∧ f = finding unit r m := by
  obtain ⟨found, hfound, rfl⟩ := evaluate_eq_ok.mp (analyze_eq_ok.mp h).2
  obtain ⟨gs, hgs, hf⟩ := List.mem_flatten.mp (first_of_each_sublist.subset (mem_sort_by.mp hf))
  obtain ⟨r, _, hrule⟩ := exists_left_of_mem hfound hgs
  obtain ⟨ms, hms, rfl⟩ := rule_findings_eq_ok.mp hrule
  obtain ⟨m, hm, rfl⟩ := List.mem_map.mp hf
  exact ⟨r, ms, m, hms, hm, by rw [unit_of_graph]⟩

theorem check_target_of_mem {s : Settings} {unit : SourceUnit} {fs : List Finding}
    (h : analyze s unit = .ok fs) {f : Finding} (hf : f ∈ fs) (hfix : f.fixAvailable = true) :
    checkTarget unit f = .ok () := by
  obtain ⟨r, ms, m, _, _, rfl⟩ := exists_match_of_mem h hf
  have hedits : m.edits.isEmpty = false := by simpa [finding] using hfix
  simp [checkTarget, finding, hedits]

theorem check_target_of_selected {s : Settings} {unit : SourceUnit} {fs : List Finding}
    (h : analyze s unit = .ok fs) : ∀ f ∈ (select fs).selected, checkTarget unit f = .ok () :=
  fun f hf => check_target_of_mem h ((selected_sublist [] fs).subset hf)
    (fix_available_of_mem_selected [] fs f hf)

/-! ## Steps of an application -/

theorem forM_eq_ok_iff {α ε : Type} {f : α → Except ε Unit} {as : List α} :
    as.forM f = .ok () ↔ ∀ a ∈ as, f a = .ok () := by
  induction as with
  | nil => exact ⟨fun _ => nofun, fun _ => rfl⟩
  | cons a as ih =>
    rw [List.forall_mem_cons, ← ih]
    change (f a >>= fun _ => as.forM f) = .ok () ↔ _
    cases f a with
    | error e => exact ⟨nofun, fun h => nomatch h.1⟩
    | ok u => exact ⟨fun h => ⟨rfl, h⟩, fun h => h.2⟩

theorem reparse_eq_ok {name text : String} (fs : List Finding) {u : SourceUnit} :
    reparse name text fs = .ok u ↔ SourceUnit.parse text name = .ok u := by
  unfold reparse
  cases SourceUnit.parse text name with
  | ok v => exact ⟨fun h => congrArg _ (Except.ok.inj h), fun h => congrArg _ (Except.ok.inj h)⟩
  | error e => cases fs <;> exact ⟨nofun, nofun⟩

/-- What comes of the text that edits have made. -/
def conclude (s : Settings) (unit : SourceUnit) (fs : List Finding) (text : String) :
    Except Failure FixResult := do
  let rewritten ← reparse unit.name text fs
  let remaining ← (analyze s rewritten).mapError .accident
  match remaining.find? fun f => f.key ∈ fs.map Finding.key with
  | some f => throw (.error (.fixVerification f.rule f.place none))
  | none => return ⟨rewritten, fs, remaining⟩

theorem apply_eq (s : Settings) (unit : SourceUnit) (fs : List Finding) :
    apply s unit fs = (do
      fs.forM (checkTarget unit)
      conclude s unit fs (← splice unit.text (taggedEdits fs))) :=
  rfl

/-- A text stands when it is a program and no finding that was mended is reported of it. -/
theorem conclude_eq_ok {s : Settings} {unit : SourceUnit} {fs : List Finding} {text : String}
    {r : FixResult} :
    conclude s unit fs text = .ok r ↔
      SourceUnit.parse text unit.name = .ok r.unit ∧ analyze s r.unit = .ok r.remaining ∧
        (∀ g ∈ r.remaining, g.key ∉ fs.map Finding.key) ∧ r.applied = fs := by
  rw [← reparse_eq_ok fs]
  unfold conclude
  cases reparse unit.name text fs with
  | error e => exact ⟨nofun, fun h => nomatch h.1⟩
  | ok u =>
    cases hanalyze : analyze s u with
    | error a =>
      refine ⟨fun h => ?_, fun h => ?_⟩
      · simp only [hanalyze, bind, Except.bind, Except.mapError] at h
        nomatch h
      · rw [Except.ok.inj h.1, h.2.1] at hanalyze
        nomatch hanalyze
    | ok rest =>
      simp only [bind, Except.bind, hanalyze, Except.mapError]
      cases hfind : rest.find? fun f => f.key ∈ fs.map Finding.key with
      | some g =>
        refine ⟨nofun, fun ⟨hu, hrest, hnone, _⟩ => ?_⟩
        rw [← Except.ok.inj hu, hanalyze] at hrest
        have hg := List.find?_some hfind
        exact absurd (of_decide_eq_true hg)
          (hnone g (Except.ok.inj hrest ▸ List.mem_of_find?_eq_some hfind))
      | none =>
        have hnone : ∀ g ∈ rest, g.key ∉ fs.map Finding.key := by
          simpa using List.find?_eq_none.mp hfind
        constructor
        · intro h
          injection h with h
          subst h
          exact ⟨rfl, hanalyze, hnone, rfl⟩
        · rintro ⟨hu, hrest, _, happlied⟩
          obtain ⟨u', applied, rest'⟩ := r
          injection hu with hu
          simp only at hu hrest happlied
          subst hu happlied
          rw [hanalyze] at hrest
          injection hrest with hrest
          rw [hrest]
          rfl

/-- Edits of findings stand when all of them belong to the unit, can be made together, and leave a
program of which none of the findings is reported. -/
theorem apply_eq_ok {s : Settings} {unit : SourceUnit} {fs : List Finding} {r : FixResult} :
    apply s unit fs = .ok r ↔ (∀ f ∈ fs, checkTarget unit f = .ok ()) ∧
      ∃ text, splice unit.text (taggedEdits fs) = .ok text ∧
        SourceUnit.parse text unit.name = .ok r.unit ∧ analyze s r.unit = .ok r.remaining ∧
        (∀ g ∈ r.remaining, g.key ∉ fs.map Finding.key) ∧ r.applied = fs := by
  simp only [apply_eq, bind_eq_ok, conclude_eq_ok]
  constructor
  · rintro ⟨⟨⟩, hcheck, text, hrest⟩
    exact ⟨forM_eq_ok_iff.mp hcheck, text, hrest⟩
  · rintro ⟨hcheck, text, hrest⟩
    exact ⟨(), forM_eq_ok_iff.mpr hcheck, text, hrest⟩

theorem rule_of_tagged {fs : List Finding} {e : TaggedEdit} (h : e ∈ taggedEdits fs) :
    ∃ f ∈ fs, e.rule = f.rule ∧ e.edit ∈ f.edits := by
  obtain ⟨f, hf, he⟩ := List.mem_flatMap.mp h
  obtain ⟨d, hd, rfl⟩ := List.mem_map.mp he
  exact ⟨f, hf, rfl, hd⟩

/-- Whether a text is offered a fix under a key, which passes a test. -/
def offers (s : Settings) (text name : String) (key : FindingKey)
    (test : SourceUnit → Finding → Bool) : Bool :=
  auditsTo s text name fun unit fs =>
    (fs.find? fun f => f.key = key && f.fixAvailable).any (test unit)

theorem exists_of_offers {s : Settings} {text name : String} {key : FindingKey}
    {test : SourceUnit → Finding → Bool} (h : offers s text name key test = true) :
    ∃ unit fs f, SourceUnit.parse text name = .ok unit ∧ analyze s unit = .ok fs ∧ f ∈ fs ∧
      f.fixAvailable = true ∧ f.key = key ∧ test unit f = true := by
  obtain ⟨unit, fs, hparse, hfs, hany⟩ := audits_to_iff.mp h
  obtain ⟨f, hfind, htest⟩ := (Option.any_eq_true ..).mp hany
  have hf := List.find?_some hfind
  rw [Bool.and_eq_true, decide_eq_true_eq] at hf
  exact ⟨unit, fs, f, hparse, hfs, List.mem_of_find?_eq_some hfind, hf.2, hf.1, htest⟩

/-- Whether edits can be made together, and make a text of another. -/
def splicesTo (text made : String) (es : List TaggedEdit) : Bool :=
  -- The bytes are compared, so that no text is decoded where this is evaluated.
  (collision? (ordered es)).isNone &&
    encode made = spliceBytes (encode text) ((ordered es).map (·.edit))

theorem splices_to_iff {text made : String} {es : List TaggedEdit} :
    splicesTo text made es = true ↔ splice text es = .ok made := by
  simp only [splicesTo, Bool.and_eq_true, Option.isNone_iff_eq_none, decide_eq_true_eq,
    splice_eq_ok]

/-- Whether a text is a program of which no finding with one of some keys is reported, and passes a
test. -/
def clears (s : Settings) (text name : String) (keys : List FindingKey)
    (test : SourceUnit → List Finding → Bool) : Bool :=
  auditsTo s text name fun u rest => (rest.all fun g => g.key ∉ keys) && test u rest

section Made
variable {s : Settings} {text name made : String} {unit : SourceUnit}
  {test : SourceUnit → List Finding → Bool} (hparse : SourceUnit.parse text name = .ok unit)
include hparse

/-- Fixes stand when the text that they make is a program of which none of their findings is
reported. -/
theorem apply_of_clears {fs : List Finding} {keys : List FindingKey}
    (hcheck : ∀ f ∈ fs, checkTarget unit f = .ok ()) (hkeys : fs.map Finding.key = keys)
    (hsplice : splicesTo text made (taggedEdits fs) = true)
    (hclears : clears s made name keys test = true) :
    ∃ r, apply s unit fs = .ok r ∧ SourceUnit.parse made name = .ok r.unit ∧
      test r.unit r.remaining = true := by
  obtain ⟨htext, hname, _⟩ := SourceUnit.parse_eq_ok hparse
  obtain ⟨u, rest, hmade, hrest, htest⟩ := audits_to_iff.mp hclears
  simp only [Bool.and_eq_true, List.all_eq_true, decide_eq_true_eq, ← hkeys] at htest
  refine ⟨⟨u, fs, rest⟩, apply_eq_ok.mpr ⟨hcheck, made, ?_, ?_, hrest, htest.1, rfl⟩, hmade,
    htest.2⟩
  · rw [htext]
    exact splices_to_iff.mp hsplice
  · rw [hname]
    exact hmade

end Made

end BacktestAudit.Fix
