import BacktestAudit.Proofs.Rules.Accidents
import BacktestAudit.Proofs.Syntax.Parsed
import Mathlib.Data.List.Dedup
import Mathlib.Data.List.Sort

/-!
What a list of rules reports is what each of them reports, in the order of reports: another list with
the same rules reports the same, and a longer one nothing less. Only where a rule cannot be evaluated
does it take the reports of the others away.
-/
namespace BacktestAudit.Rules
open BacktestAudit.Syntax BacktestAudit.Flow BacktestAudit.Source
set_option autoImplicit false

/-! ## One report of a kind -/

/-- Dropping reports of some kinds first changes nothing for the others. -/
theorem first_of_each_filter {p : ReportKey → Bool} {seen seen' : List ReportKey}
    (hseen : ∀ k, p k = true → (k ∈ seen ↔ k ∈ seen')) (fs : List Finding) :
    firstOfEach seen' (fs.filter fun f => p (reportKey f)) =
      (firstOfEach seen fs).filter fun f => p (reportKey f) := by
  induction fs generalizing seen seen' with
  | nil => rfl
  | cons f fs ih =>
    rw [List.filter_cons, firstOfEach]
    cases hf : p (reportKey f) with
    | false =>
      rw [if_neg (Bool.false_ne_true)]
      split
      · exact ih hseen
      · rw [List.filter_cons, hf, if_neg (Bool.false_ne_true)]
        refine ih fun k hk => ?_
        have hne : k ≠ reportKey f := by
          rintro rfl
          rw [hf] at hk
          cases hk
        rw [List.mem_cons, hseen k hk, or_iff_right hne]
    | true =>
      rw [if_pos rfl, firstOfEach]
      by_cases hmem : reportKey f ∈ seen
      · rw [if_pos hmem, if_pos ((hseen _ hf).mp hmem)]
        exact ih hseen
      · rw [if_neg hmem, if_neg fun h => hmem ((hseen _ hf).mpr h), List.filter_cons, hf,
          if_pos rfl]
        exact congrArg _ (ih fun k hk => by rw [List.mem_cons, List.mem_cons, hseen k hk])

theorem first_of_each_congr {seen seen' : List ReportKey} (h : ∀ k, k ∈ seen ↔ k ∈ seen')
    (fs : List Finding) : firstOfEach seen fs = firstOfEach seen' fs := by
  have hall := first_of_each_filter (p := fun _ => true) (fun k _ => h k) fs
  simpa using hall.symm

theorem first_of_each_append (seen : List ReportKey) (fs gs : List Finding) :
    firstOfEach seen (fs ++ gs) =
      firstOfEach seen fs ++ firstOfEach (fs.map reportKey ++ seen) gs := by
  induction fs generalizing seen with
  | nil => rfl
  | cons f fs ih =>
    rw [List.cons_append, firstOfEach, firstOfEach, ih, ih]
    by_cases hf : reportKey f ∈ seen
    · rw [if_pos hf, if_pos hf]
      refine congrArg _ (first_of_each_congr (fun k => ?_) gs)
      simp only [List.map_cons, List.mem_append, List.mem_cons]
      constructor
      · exact fun h => h.imp_left .inr
      · rintro ((rfl | h) | h)
        · exact .inr hf
        · exact .inl h
        · exact .inr h
    · rw [if_neg hf, if_neg hf, List.cons_append]
      refine congrArg _ (congrArg _ (first_of_each_congr (fun k => ?_) gs))
      simp only [List.map_cons, List.mem_append, List.mem_cons]
      rw [or_left_comm, or_assoc]

theorem first_of_each_of_seen {seen : List ReportKey} {fs : List Finding}
    (h : ∀ f ∈ fs, reportKey f ∈ seen) : firstOfEach seen fs = [] := by
  induction fs with
  | nil => rfl
  | cons f fs ih =>
    rw [firstOfEach, if_pos (h f (List.mem_cons_self ..))]
    exact ih fun g hg => h g (List.mem_cons_of_mem f hg)

theorem first_of_each_twice (seen : List ReportKey) (fs gs : List Finding) :
    firstOfEach seen (fs ++ (fs ++ gs)) = firstOfEach seen (fs ++ gs) := by
  have hseen : ∀ f ∈ fs, reportKey f ∈ fs.map reportKey ++ seen :=
    fun f hf => List.mem_append_left _ (List.mem_map_of_mem hf)
  rw [first_of_each_append, first_of_each_append _ fs gs, first_of_each_of_seen hseen,
    List.nil_append, first_of_each_append]
  refine congrArg _ (first_of_each_congr (fun k => ?_) gs)
  simp only [List.mem_append]
  tauto

theorem first_of_each_nodup (seen : List ReportKey) (fs : List Finding) :
    ((firstOfEach seen fs).map reportKey).Nodup := by
  induction fs generalizing seen with
  | nil => exact List.nodup_nil
  | cons f fs ih =>
    unfold firstOfEach
    split
    · exact ih seen
    · refine List.nodup_cons.mpr ⟨fun hmem => ?_, ih _⟩
      obtain ⟨g, hg, hkey⟩ := List.mem_map.mp hmem
      exact (first_of_each_keys.mp ⟨g, hg, hkey⟩).1 (List.mem_cons_self ..)

/-! ## The rules of a list -/

def codeLe (a b : Rule) : Bool := a.code ≤ b.code

theorem code_le_trans (a b c : Rule) (hab : codeLe a b = true) (hbc : codeLe b c = true) :
    codeLe a c = true := by
  simp only [codeLe, decide_eq_true_eq] at *
  exact String.le_trans hab hbc

theorem code_le_total (a b : Rule) : (codeLe a b || codeLe b a) = true := by
  simpa only [codeLe, Bool.or_eq_true, decide_eq_true_eq] using String.le_total a.code b.code

theorem eq_of_code_le {a b : Rule} (hab : codeLe a b = true) (hba : codeLe b a = true) : a = b := by
  simp only [codeLe, decide_eq_true_eq] at hab hba
  exact Rule.code_inj (String.le_antisymm hab hba)

theorem first_of_each_dedup (f : Rule → List Finding) {rules : List Rule}
    (h : rules.Pairwise fun a b => codeLe a b = true) (seen : List ReportKey) :
    firstOfEach seen (rules.flatMap f) = firstOfEach seen (rules.dedup.flatMap f) := by
  induction rules generalizing seen with
  | nil => rfl
  | cons r rs ih =>
    obtain ⟨hr, hrs⟩ := List.pairwise_cons.mp h
    by_cases hmem : r ∈ rs
    · rw [List.dedup_cons_of_mem hmem, ← ih hrs]
      cases rs with
      | nil => nomatch hmem
      | cons q qs =>
        have hq : codeLe q r = true := by
          rcases List.mem_cons.mp hmem with rfl | hmem
          · exact hr r (List.mem_cons_self ..)
          · exact (List.pairwise_cons.mp hrs).1 r hmem
        obtain rfl := eq_of_code_le hq (hr q (List.mem_cons_self ..))
        simp only [List.flatMap_cons]
        exact first_of_each_twice seen (f q) _
    · rw [List.dedup_cons_of_notMem hmem, List.flatMap_cons, List.flatMap_cons,
        first_of_each_append, first_of_each_append _ (f r), ih hrs]

/-- The rules of a list, each once and in the order of their codes. -/
def listed (rules : List Rule) : List Rule := Rule.all.filter (· ∈ rules)

theorem mem_listed {rules : List Rule} {r : Rule} : r ∈ listed rules ↔ r ∈ rules := by
  simp [listed, Rule.mem_all]

theorem mem_codes {rules : List Rule} {r : Rule} : r.code ∈ rules.map Rule.code ↔ r ∈ rules := by
  refine ⟨fun h => ?_, List.mem_map_of_mem⟩
  obtain ⟨q, hq, hcode⟩ := List.mem_map.mp h
  rwa [← Rule.code_inj hcode]

theorem dedup_sort_by (rules : List Rule) : (sortBy codeLe rules).dedup = listed rules := by
  let before (a b : Rule) : Prop := codeLe a b = true ∧ a ≠ b
  have hantisymm : Std.Antisymm before := ⟨fun _ _ hab hba => eq_of_code_le hab.1 hba.1⟩
  have hirrefl : Std.Irrefl before := ⟨fun _ h => h.2 rfl⟩
  have hsorted : (sortBy codeLe rules).dedup.Pairwise before :=
    ((pairwise_sort_by code_le_trans code_le_total rules).sublist (List.dedup_sublist _)).and
      (List.nodup_dedup _)
  have hall : Rule.all.Pairwise before := by decide +kernel
  refine hsorted.eq_of_mem_iff (hall.sublist List.filter_sublist) fun r => ?_
  rw [List.mem_dedup, mem_sort_by, ← mem_listed, listed]

/-! ## Evaluation -/

/-- What a rule reports of a graph, if it can be evaluated. -/
def reports (s : Settings) (g : Graph) (r : Rule) : List Finding :=
  ((r.findMatches (context s g) g).toOption.getD []).map (finding g.unit r)

theorem reports_of_matches {s : Settings} {g : Graph} {r : Rule} {ms : List Match}
    (h : r.findMatches (context s g) g = .ok ms) : reports s g r = ms.map (finding g.unit r) := by
  rw [reports, h]
  rfl

theorem rule_of_reports {s : Settings} {g : Graph} {r : Rule} {f : Finding}
    (h : f ∈ reports s g r) : f.rule = r.code := by
  obtain ⟨m, _, rfl⟩ := List.mem_map.mp h
  rfl

/-- Rules are evaluated when each of them is, to the reports of all. -/
theorem evaluate_eq_ok_iff {s : Settings} {g : Graph} {rules : List Rule} {fs : List Finding} :
    evaluate s g rules = .ok fs ↔
      (∀ r ∈ rules, ∃ ms, r.findMatches (context s g) g = .ok ms) ∧
        fs = Finding.sorted (firstOfEach [] ((listed rules).flatMap (reports s g))) := by
  have hfound (found : List (List Finding))
      (h : List.Forall₂ (fun r fs => ruleFindings (context s g) g r = .ok fs)
        (sortBy (fun a b => a.code ≤ b.code) rules) found) :
      firstOfEach [] found.flatten =
        firstOfEach [] ((listed rules).flatMap (reports s g)) := by
    have hreports : found = (sortBy codeLe rules).map (reports s g) := by
      refine List.forall₂_eq_eq_eq ▸ (List.forall₂_map_right_iff.mpr (h.flip.imp fun fs r hr => ?_))
      obtain ⟨ms, hms, rfl⟩ := rule_findings_eq_ok.mp hr
      exact (reports_of_matches hms).symm
    rw [hreports, ← List.flatMap_def, first_of_each_dedup _
      (pairwise_sort_by code_le_trans code_le_total rules), dedup_sort_by]
  constructor
  · intro h
    refine ⟨evaluate_succeeds_iff.mp ⟨fs, h⟩, ?_⟩
    obtain ⟨found, hrules, rfl⟩ := evaluate_eq_ok.mp h
    rw [hfound found hrules]
  · rintro ⟨hall, rfl⟩
    obtain ⟨fs, hfs⟩ := evaluate_succeeds_iff.mpr hall
    obtain ⟨found, hrules, rfl⟩ := evaluate_eq_ok.mp hfs
    rw [hfs, hfound found hrules]

/-- The reports of some of the rules are those reports that name one of them. -/
theorem reports_of_listed {s : Settings} {g : Graph} {rules more : List Rule}
    (hsub : ∀ r ∈ rules, r ∈ more) :
    (listed rules).flatMap (reports s g) =
      ((listed more).flatMap (reports s g)).filter (·.rule ∈ rules.map Rule.code) := by
  have hlisted : listed rules = (listed more).filter (· ∈ rules) := by
    rw [listed, listed, List.filter_filter]
    exact List.filter_congr fun r _ => by simpa using hsub r
  have hnamed (r : Rule) : (reports s g r).filter (·.rule ∈ rules.map Rule.code) =
      if r ∈ rules then reports s g r else [] := by
    split
    · next hr =>
      refine List.filter_eq_self.mpr fun f hf => ?_
      rw [rule_of_reports hf]
      exact decide_eq_true (mem_codes.mpr hr)
    · next hr =>
      refine List.filter_eq_nil_iff.mpr fun f hf hcode => ?_
      rw [rule_of_reports hf, decide_eq_true_eq, mem_codes] at hcode
      exact hr hcode
  rw [hlisted]
  induction listed more with
  | nil => rfl
  | cons r rs ih =>
    rw [List.flatMap_cons, List.filter_append, ← ih, List.filter_cons, hnamed]
    by_cases hr : r ∈ rules
    · rw [if_pos (decide_eq_true hr), if_pos hr, List.flatMap_cons]
    · rw [if_neg (by simpa using hr), if_neg hr, List.nil_append]

theorem evaluate_of_subset {s : Settings} {g : Graph} {rules more : List Rule}
    (hsub : ∀ r ∈ rules, r ∈ more) {fs : List Finding} (h : evaluate s g more = .ok fs) :
    evaluate s g rules = .ok (fs.filter (·.rule ∈ rules.map Rule.code)) := by
  obtain ⟨hall, rfl⟩ := evaluate_eq_ok_iff.mp h
  refine evaluate_eq_ok_iff.mpr ⟨fun r hr => hall r (hsub r hr), ?_⟩
  have hunseen : ∀ k : ReportKey, decide (k.rule ∈ rules.map Rule.code) = true →
      (k ∈ ([] : List ReportKey) ↔ k ∈ []) := fun _ _ => Iff.rfl
  have hkinds := first_of_each_filter hunseen ((listed more).flatMap (reports s g))
  rw [reports_of_listed hsub, Finding.sorted, Finding.sorted,
    ← sort_by_filter Finding.le_trans Finding.le_total]
  exact congrArg _ hkinds.symm

/-- The line that is shown is a matter of the place. -/
theorem report_key_of_key {s : Settings} {g : Graph} {rules : List Rule} {f f' : Finding}
    (hf : f ∈ rules.flatMap (reports s g)) (hf' : f' ∈ rules.flatMap (reports s g))
    (hkey : f.key = f'.key) : reportKey f = reportKey f' := by
  have hshown : ∀ f ∈ rules.flatMap (reports s g),
      reportKey f = ⟨f.key.rule, f.key.place, snippet g.unit.text f.key.place snippetLimit⟩ := by
    intro f hf
    obtain ⟨r, _, hr⟩ := List.mem_flatMap.mp hf
    obtain ⟨m, _, rfl⟩ := List.mem_map.mp hr
    rfl
  rw [hshown f hf, hshown f' hf', hkey]

theorem evaluate_in_order {s : Settings} {g : Graph} {rules : List Rule} {fs : List Finding}
    (h : evaluate s g rules = .ok fs) :
    fs.Pairwise (fun a b => a.le b = true) ∧ (fs.map Finding.key).Nodup := by
  obtain ⟨_, rfl⟩ := evaluate_eq_ok_iff.mp h
  refine ⟨pairwise_sort_by Finding.le_trans Finding.le_total _, ?_⟩
  refine ((perm_sort_by _ _).map Finding.key).nodup_iff.mpr ?_
  have hreports := first_of_each_nodup [] ((listed rules).flatMap (reports s g))
  refine List.Nodup.map_on (fun f hf f' hf' hkey => ?_) (List.Nodup.of_map _ hreports)
  exact List.inj_on_of_nodup_map hreports hf hf'
    (report_key_of_key (first_of_each_sublist.subset hf) (first_of_each_sublist.subset hf') hkey)

/-! ## Rules that can be evaluated -/

/-- The rules on fills look up the method of every fill; the others can always be evaluated. -/
theorem find_matches_succeeds_iff {ctx : Context} {g : Graph} {r : Rule} :
    (∃ ms, r.findMatches ctx g = .ok ms) ↔
      (r = .deprecatedFill ∨ r = .backfill → ∀ c ∈ g.calls, fillsByUnhashable c = false) := by
  cases r with
  | deprecatedFill =>
    simp only [Rule.findMatches, deprecated_fills_succeed_iff, is_forward_fill_succeeds_iff,
      true_or, true_imp_iff]
  | backfill =>
    simp only [Rule.findMatches, backfills_succeed_iff, is_backfill_succeeds_iff, or_true,
      true_imp_iff]
  | _ => exact ⟨fun _ => nofun, fun _ => ⟨_, rfl⟩⟩

theorem evaluate_active {s : Settings} {g : Graph} {fs : List Finding}
    (h : evaluate s g Rule.all = .ok fs) (disabled : List String) :
    evaluate s g (Rule.active disabled) = .ok (fs.filter (·.rule ∉ disabled)) := by
  rw [evaluate_of_subset (fun r _ => Rule.mem_all r) h]
  refine congrArg _ (List.filter_congr fun f hf => ?_)
  obtain ⟨r, _, _, _, m, _, hkey⟩ := (evaluate_keys h).mp ⟨f, hf, rfl⟩
  have hrule : f.rule = r.code := congrArg FindingKey.rule hkey
  rw [hrule, decide_eq_decide, mem_codes, Rule.mem_active]

/-- Rules on a graph: they can be evaluated unless one of them is on fills and a fill is by what
cannot be looked up; they report the part that names them of what any list with these rules reports,
so that disabling rules takes away their findings and no others; and what they report is in order,
names a rule with a place only once, and is all that they match. -/
theorem rules_report_by_themselves (s : Settings) (g : Graph) (rules : List Rule) :
    ((∃ fs, evaluate s g rules = .ok fs) ↔
      (.deprecatedFill ∈ rules ∨ .backfill ∈ rules →
        ∀ c ∈ g.calls, fillsByUnhashable c = false)) ∧
    (∀ more fs, (∀ r ∈ rules, r ∈ more) → evaluate s g more = .ok fs →
      evaluate s g rules = .ok (fs.filter (·.rule ∈ rules.map Rule.code))) ∧
    (∀ disabled fs, evaluate s g Rule.all = .ok fs →
      evaluate s g (Rule.active disabled) = .ok (fs.filter (·.rule ∉ disabled))) ∧
    ∀ fs, evaluate s g rules = .ok fs →
      fs.Pairwise (fun a b =>
        a.place.first < b.place.first ∨ a.place.first = b.place.first ∧ a.rule ≤ b.rule) ∧
      (fs.map Finding.key).Nodup ∧
      ∀ key, key ∈ fs.map Finding.key ↔
        ∃ r ∈ rules, ∃ ms, r.findMatches (context s g) g = .ok ms ∧
          ∃ m ∈ ms, key = ⟨r.code, m.place⟩ := by
  refine ⟨?_, fun _ _ hsub h => evaluate_of_subset hsub h,
    fun disabled _ h => evaluate_active h disabled, fun fs h => ?_⟩
  · simp only [evaluate_succeeds_iff, find_matches_succeeds_iff]
    constructor
    · rintro h (hr | hr)
      · exact h _ hr (.inl rfl)
      · exact h _ hr (.inr rfl)
    · rintro h r hr (rfl | rfl)
      · exact h (.inl hr)
      · exact h (.inr hr)
  · obtain ⟨hsorted, hnodup⟩ := evaluate_in_order h
    exact ⟨hsorted.imp Finding.le_iff.mp, hnodup, fun key => by rw [← evaluate_keys h, List.mem_map]⟩

/-- The places that rules report of a unit; nothing when they cannot be evaluated. -/
def reportedKeys (rules : List Rule) (unit : SourceUnit) : Option (List FindingKey) :=
  (evaluate .standard (Graph.ofUnit unit) rules).toOption.map (·.map Finding.key)

theorem reported_keys_eq_some {rules : List Rule} {unit : SourceUnit} {keys : List FindingKey} :
    reportedKeys rules unit = some keys ↔
      ∃ fs, evaluate .standard (Graph.ofUnit unit) rules = .ok fs ∧ fs.map Finding.key = keys := by
  unfold reportedKeys
  cases evaluate .standard (Graph.ofUnit unit) rules <;> simp [Except.toOption]

/-- Two rules on the first line, and one of them that matches it twice on the second. -/
def fourPlacesText : String :=
  "position = signal.shift(-1)\nclean = df.bfill(); eval(a); exec(b)\n"

theorem four_places_reported_by_themselves :
    ∃ unit fs, SourceUnit.parse fourPlacesText "places" = .ok unit ∧
      evaluate .standard (Graph.ofUnit unit) Rule.all = .ok fs ∧
      fs.map Finding.key =
        [⟨"LB001", ⟨1, 1⟩⟩, ⟨"LB003", ⟨1, 1⟩⟩, ⟨"LB005", ⟨2, 2⟩⟩, ⟨"SEC001", ⟨2, 2⟩⟩] ∧
      evaluate .standard (Graph.ofUnit unit) [.dynamicCode, .unshiftedSignal, .dynamicCode] =
        .ok (fs.filter (·.rule ∈ ["SEC001", "LB001", "SEC001"])) ∧
      evaluate .standard (Graph.ofUnit unit) (Rule.active ["LB003"]) =
        .ok (fs.filter (·.rule ∉ ["LB003"])) := by
  have hfacts : SourceUnit.parsesTo fourPlacesText "places" (fun unit =>
      reportedKeys Rule.all unit = some
        [⟨"LB001", ⟨1, 1⟩⟩, ⟨"LB003", ⟨1, 1⟩⟩, ⟨"LB005", ⟨2, 2⟩⟩, ⟨"SEC001", ⟨2, 2⟩⟩]) = true := by
    decide +kernel
  obtain ⟨unit, hparse, hunit⟩ := SourceUnit.parses_to_iff.mp hfacts
  obtain ⟨fs, hfs, hkeys⟩ := reported_keys_eq_some.mp (of_decide_eq_true hunit)
  obtain ⟨_, hpart, hdisabled, _⟩ := rules_report_by_themselves .standard (Graph.ofUnit unit)
    [.dynamicCode, .unshiftedSignal, .dynamicCode]
  exact ⟨unit, fs, hparse, hfs, hkeys, hpart _ _ (fun r _ => Rule.mem_all r) hfs,
    hdisabled _ _ hfs⟩

/-- A fill by an empty list, and a signal that is traded on its own bar. -/
def fillAndSignalText : String := "x = y.fillna(method=[])\nposition = signal\n"

/-- What a rule reports by itself is lost in a list with one that cannot be evaluated. -/
theorem fill_by_list_silences_rules :
    ∃ unit, SourceUnit.parse fillAndSignalText "fill" = .ok unit ∧
      (∃ fs, evaluate .standard (Graph.ofUnit unit) [.unshiftedSignal] = .ok fs ∧
        fs.map Finding.key = [⟨"LB001", ⟨2, 2⟩⟩]) ∧
      (∀ fs, evaluate .standard (Graph.ofUnit unit) [.unshiftedSignal, .backfill] ≠ .ok fs) ∧
      ∀ fs, evaluate .standard (Graph.ofUnit unit) Rule.all ≠ .ok fs := by
  have hfacts : SourceUnit.parsesTo fillAndSignalText "fill" (fun unit =>
      reportedKeys [.unshiftedSignal] unit = some [⟨"LB001", ⟨2, 2⟩⟩] ∧
        reportedKeys [.unshiftedSignal, .backfill] unit = none ∧
        reportedKeys Rule.all unit = none) = true := by
    decide +kernel
  obtain ⟨unit, hparse, hunit⟩ := SourceUnit.parses_to_iff.mp hfacts
  obtain ⟨halone, hboth, hall⟩ := of_decide_eq_true hunit
  have hlost {rules : List Rule} (hnone : reportedKeys rules unit = none) (fs : List Finding) :
      evaluate .standard (Graph.ofUnit unit) rules ≠ .ok fs := by
    intro hfs
    rw [reported_keys_eq_some.mpr ⟨fs, hfs, rfl⟩] at hnone
    nomatch hnone
  exact ⟨unit, hparse, reported_keys_eq_some.mp halone, hlost hboth, hlost hall⟩

end BacktestAudit.Rules
