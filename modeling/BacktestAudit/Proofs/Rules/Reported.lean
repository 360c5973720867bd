import BacktestAudit.Data.Outcome
import BacktestAudit.Proofs.Syntax.Parsed
import BacktestAudit.Rules.Evaluation

/-!
When rules are evaluated to findings, and which places are reported then: those that one of the
active rules matches, whatever the order of the rules and however often they match.
-/
namespace BacktestAudit.Rules
open BacktestAudit.Data.Outcome BacktestAudit.Syntax BacktestAudit.Flow BacktestAudit.Source
set_option autoImplicit false

/-! ## One finding for a place -/

theorem key_of_report_key {f g : Finding} (h : reportKey f = reportKey g) : f.key = g.key := by
  injection h with hrule hplace _
  rw [Finding.key, hrule, hplace, Finding.key]

theorem first_of_each_sublist {seen : List ReportKey} {fs : List Finding} :
    (firstOfEach seen fs).Sublist fs := by
  induction fs generalizing seen with
  | nil => exact List.Sublist.slnil
  | cons g gs ih =>
    unfold firstOfEach
    split
    · exact ih.cons g
    · exact ih.cons_cons g

/-- Findings that repeat a report are dropped, but no report is lost. -/
theorem first_of_each_keys {seen : List ReportKey} {fs : List Finding} {key : ReportKey} :
    (∃ f ∈ firstOfEach seen fs, reportKey f = key) ↔
      key ∉ seen ∧ ∃ f ∈ fs, reportKey f = key := by
  induction fs generalizing seen with
  | nil => simp [firstOfEach]
  | cons g gs ih =>
    unfold firstOfEach
    by_cases hg : reportKey g ∈ seen
    · rw [if_pos hg, ih]
      constructor
      · rintro ⟨hkey, f, hf, heq⟩
        exact ⟨hkey, f, List.mem_cons_of_mem g hf, heq⟩
      · rintro ⟨hkey, f, hf, heq⟩
        rcases List.mem_cons.mp hf with rfl | hf
        · exact absurd (heq ▸ hg) hkey
        · exact ⟨hkey, f, hf, heq⟩
    · rw [if_neg hg]
      constructor
      · rintro ⟨f, hf, heq⟩
        rcases List.mem_cons.mp hf with rfl | hf
        · exact ⟨heq ▸ hg, f, List.mem_cons_self .., heq⟩
        · obtain ⟨hkey, f, hf, heq⟩ := ih.mp ⟨f, hf, heq⟩
          exact ⟨fun h => hkey (List.mem_cons_of_mem _ h), f, List.mem_cons_of_mem g hf, heq⟩
      · rintro ⟨hkey, f, hf, heq⟩
        by_cases hsame : key = reportKey g
        · exact ⟨g, List.mem_cons_self .., hsame.symm⟩
        · rcases List.mem_cons.mp hf with rfl | hf
          · exact absurd heq.symm hsame
          · obtain ⟨f, hf, heq⟩ := ih.mpr ⟨List.not_mem_cons_of_ne_of_not_mem hsame hkey, f, hf, heq⟩
            exact ⟨f, List.mem_cons_of_mem g hf, heq⟩

/-! ## Evaluation -/

theorem context_roles (s : Settings) (g : Graph) : (context s g).roles = .ofSettings s.patterns :=
  rfl

def ruleFindings (ctx : Context) (g : Graph) (r : Rule) : Except Accident (List Finding) := do
  return (← r.findMatches ctx g).map (finding g.unit r)

theorem rule_findings_eq_ok {ctx : Context} {g : Graph} {r : Rule} {fs : List Finding} :
    ruleFindings ctx g r = .ok fs ↔
      ∃ ms, r.findMatches ctx g = .ok ms ∧ fs = ms.map (finding g.unit r) := by
  unfold ruleFindings
  cases r.findMatches ctx g with
  | error e => exact ⟨nofun, fun ⟨_, h, _⟩ => nomatch h⟩
  | ok ms =>
    constructor
    · intro h
      injection h with h
      exact ⟨ms, rfl, h.symm⟩
    · rintro ⟨_, h, rfl⟩
      injection h with h
      rw [h]
      rfl

/-- Evaluation succeeds when every rule does. -/
theorem evaluate_eq_ok {s : Settings} {g : Graph} {rules : List Rule} {fs : List Finding} :
    evaluate s g rules = .ok fs ↔
      ∃ found, List.Forall₂ (fun r fs => ruleFindings (context s g) g r = .ok fs)
        (sortBy (fun a b => a.code ≤ b.code) rules) found ∧
        fs = Finding.sorted (firstOfEach [] found.flatten) := by
  simp only [← mapM_eq_ok_iff]
  change (do
    let found ← (sortBy (fun a b => a.code ≤ b.code) rules).mapM (ruleFindings (context s g) g)
    return Finding.sorted (firstOfEach [] found.flatten)) = Except.ok fs ↔ _
  cases (sortBy (fun a b => a.code ≤ b.code) rules).mapM (ruleFindings (context s g) g) with
  | error e => exact ⟨nofun, fun ⟨_, h, _⟩ => nomatch h⟩
  | ok found =>
    constructor
    · intro h
      injection h with h
      exact ⟨found, rfl, h.symm⟩
    · rintro ⟨_, h, rfl⟩
      injection h with h
      rw [h]
      rfl

theorem evaluate_succeeds_iff {s : Settings} {g : Graph} {rules : List Rule} :
    (∃ fs, evaluate s g rules = .ok fs) ↔
      ∀ r ∈ rules, ∃ ms, r.findMatches (context s g) g = .ok ms := by
  constructor
  · rintro ⟨fs, h⟩ r hr
    obtain ⟨found, hfound, _⟩ := evaluate_eq_ok.mp h
    obtain ⟨_, _, hr⟩ := exists_right_of_mem hfound (mem_sort_by.mpr hr)
    obtain ⟨ms, hms, _⟩ := rule_findings_eq_ok.mp hr
    exact ⟨ms, hms⟩
  · intro h
    have hall : ∀ r ∈ sortBy (fun a b => a.code ≤ b.code) rules,
        ∃ fs, ruleFindings (context s g) g r = .ok fs := by
      intro r hr
      obtain ⟨ms, hms⟩ := h r (mem_sort_by.mp hr)
      exact ⟨_, rule_findings_eq_ok.mpr ⟨ms, hms, rfl⟩⟩
    obtain ⟨found, hfound⟩ := exists_related hall
    exact ⟨_, evaluate_eq_ok.mpr ⟨found, hfound, rfl⟩⟩

/-- The keys of the findings are those of the places that the rules match. -/
theorem evaluate_keys {s : Settings} {g : Graph} {rules : List Rule} {fs : List Finding}
    (h : evaluate s g rules = .ok fs) {key : FindingKey} :
    (∃ f ∈ fs, f.key = key) ↔
      ∃ r ∈ rules, ∃ ms, r.findMatches (context s g) g = .ok ms ∧
        ∃ m ∈ ms, key = ⟨r.code, m.place⟩ := by
  obtain ⟨found, hfound, rfl⟩ := evaluate_eq_ok.mp h
  have hkeys : (∃ f ∈ Finding.sorted (firstOfEach [] found.flatten), f.key = key) ↔
      ∃ f ∈ found.flatten, f.key = key := by
    simp only [Finding.sorted, mem_sort_by]
    constructor
    · rintro ⟨f, hf, hkey⟩
      exact ⟨f, first_of_each_sublist.subset hf, hkey⟩
    · rintro ⟨f, hf, hkey⟩
      obtain ⟨g, hg, hsame⟩ := first_of_each_keys.mpr ⟨List.not_mem_nil, f, hf, rfl⟩
      exact ⟨g, hg, (key_of_report_key hsame).trans hkey⟩
  rw [hkeys]
  constructor
  · rintro ⟨f, hf, rfl⟩
    obtain ⟨fs, hfs, hf⟩ := List.mem_flatten.mp hf
    obtain ⟨r, hr, hrule⟩ := exists_left_of_mem hfound hfs
    obtain ⟨ms, hms, rfl⟩ := rule_findings_eq_ok.mp hrule
    obtain ⟨m, hm, rfl⟩ := List.mem_map.mp hf
    exact ⟨r, mem_sort_by.mp hr, ms, hms, m, hm, rfl⟩
  · rintro ⟨r, hr, ms, hms, m, hm, rfl⟩
    obtain ⟨fs, hfs, hrule⟩ := exists_right_of_mem hfound (mem_sort_by.mpr hr)
    obtain ⟨ms', hms', rfl⟩ := rule_findings_eq_ok.mp hrule
    rw [hms] at hms'
    injection hms' with hms'
    exact ⟨finding g.unit r m, List.mem_flatten.mpr ⟨_, hfs, List.mem_map_of_mem (hms' ▸ hm)⟩, rfl⟩

/-! ## Analysis -/

theorem analyze_eq_ok {s : Settings} {unit : SourceUnit} {fs : List Finding} :
    analyze s unit = .ok fs ↔ (Graph.ofUnit unit).leavesRange = false ∧
      evaluate s (Graph.ofUnit unit) (Rule.active s.disabledRules) = .ok fs := by
  have hbuild : Graph.build? unit =
      if (Graph.ofUnit unit).leavesRange then none else some (Graph.ofUnit unit) := rfl
  unfold analyze
  rw [hbuild]
  cases (Graph.ofUnit unit).leavesRange with
  | true => exact ⟨nofun, fun h => nomatch h.1⟩
  | false => exact ⟨fun h => ⟨rfl, h⟩, fun h => h.2⟩

theorem analyze_succeeds_iff {s : Settings} {unit : SourceUnit} :
    (∃ fs, analyze s unit = .ok fs) ↔ (Graph.ofUnit unit).leavesRange = false ∧
      ∀ r ∈ Rule.active s.disabledRules,
        ∃ ms, r.findMatches (context s (Graph.ofUnit unit)) (Graph.ofUnit unit) = .ok ms := by
  simp only [analyze_eq_ok, exists_and_left, evaluate_succeeds_iff]

/-- What is reported of a unit: the places that an active rule matches. -/
theorem analyze_keys {s : Settings} {unit : SourceUnit} {fs : List Finding}
    (h : analyze s unit = .ok fs) {key : FindingKey} :
    (∃ f ∈ fs, f.key = key) ↔
      ∃ r ∈ Rule.active s.disabledRules,
        ∃ ms, r.findMatches (context s (Graph.ofUnit unit)) (Graph.ofUnit unit) = .ok ms ∧
          ∃ m ∈ ms, key = ⟨r.code, m.place⟩ :=
  evaluate_keys (analyze_eq_ok.mp h).2

/-- Whether a text is a program that passes a test with what is reported of it. -/
def auditsTo (s : Settings) (text name : String) (test : SourceUnit → List Finding → Bool) : Bool :=
  SourceUnit.parsesTo text name fun u => (analyze s u).toOption.any (test u)

theorem audits_to_iff {s : Settings} {text name : String}
    {test : SourceUnit → List Finding → Bool} :
    auditsTo s text name test = true ↔ ∃ u fs, SourceUnit.parse text name = .ok u ∧
      analyze s u = .ok fs ∧ test u fs = true := by
  simp only [auditsTo, SourceUnit.parses_to_iff, to_option_any_iff, exists_and_left]

end BacktestAudit.Rules
