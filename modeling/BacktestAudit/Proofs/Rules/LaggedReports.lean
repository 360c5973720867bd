import BacktestAudit.Proofs.Flow.LaggedGraph
import BacktestAudit.Proofs.Rules.Accidents
import BacktestAudit.Proofs.Syntax.Parsed

/-!
Lagging reads of assigned values by a bar reports nothing new: no position that uses a signal on its
bar, and no value of a later bar.
-/
namespace BacktestAudit.Rules
open BacktestAudit.Data.Outcome BacktestAudit.Syntax BacktestAudit.Flow BacktestAudit.Source
set_option autoImplicit false

/-! ## Rules that may fail -/

theorem find_matches_of_le {g g' : Graph} (h : g.Le g') (ctx : Context) {ctx' : Context} {r : Rule}
    (hr : ∃ ms, r.findMatches ctx' g' = .ok ms) : ∃ ms, r.findMatches ctx g = .ok ms := by
  cases r with
  | deprecatedFill =>
    refine deprecated_fills_succeed_iff.mpr fun c hc => ?_
    obtain ⟨c', hc', hsame⟩ := h.calls c hc
    obtain ⟨b, hb⟩ := deprecated_fills_succeed_iff.mp hr c' hc'
    refine ⟨b, ?_⟩
    rw [← hb, isForwardFill, isForwardFill, keywordAmong, keywordAmong, CallSite.keyword?,
      CallSite.keyword?, hsame.method_eq, hsame.function_eq, hsame.keywords_eq]
  | backfill =>
    refine backfills_succeed_iff.mpr fun c hc => ?_
    obtain ⟨c', hc', hsame⟩ := h.calls c hc
    obtain ⟨b, hb⟩ := backfills_succeed_iff.mp hr c' hc'
    refine ⟨b, ?_⟩
    rw [← hb, isBackfill, isBackfill, keywordAmong, keywordAmong, CallSite.keyword?,
      CallSite.keyword?, hsame.method_eq, hsame.function_eq, hsame.keywords_eq]
  | _ => exact ⟨_, rfl⟩

/-! ## Reports on lags -/

theorem unlagged_of_le {a b : Lag} (h : Lag.le a b = true) (hb : isUnlagged b = true) :
    isUnlagged a = true := by
  cases a <;> cases b <;> simp only [Lag.le, isUnlagged, decide_eq_true_eq] at * <;> omega

theorem unlagged_signals_ne_nil {roles : Roles} {a a' : Assignment} (h : a.Le a')
    (hne : unlaggedSignals roles a' ≠ []) : unlaggedSignals roles a ≠ [] := by
  obtain ⟨r', hr'⟩ := List.exists_mem_of_ne_nil _ hne
  obtain ⟨hmem, htest⟩ := List.mem_filter.mp hr'
  obtain ⟨r, hr, hle⟩ := exists_left_of_mem h.reads hmem
  simp only [Bool.and_eq_true] at htest
  apply List.ne_nil_of_mem (a := r)
  refine List.mem_filter.mpr ⟨hr, ?_⟩
  simp only [Bool.and_eq_true]
  rw [← hle.column_eq, ← hle.constant_eq]
  exact ⟨htest.1, unlagged_of_le hle.lag_le htest.2⟩

theorem mem_unshifted_signals {ctx : Context} {g : Graph} {place : Lines} :
    (∃ m ∈ unshiftedSignals ctx g, m.place = place) ↔
      ∃ a ∈ g.assignments.toList, ctx.roles.isPosition a.target.name = true ∧
        unlaggedSignals ctx.roles a ≠ [] ∧ a.place = place := by
  constructor
  · rintro ⟨m, hm, rfl⟩
    obtain ⟨a, ha, heq⟩ := List.mem_filterMap.mp hm
    by_cases hposition : ctx.roles.isPosition a.target.name = true
    · rw [if_pos hposition] at heq
      cases hreads : unlaggedSignals ctx.roles a with
      | nil =>
        rw [hreads] at heq
        nomatch heq
      | cons r rs =>
        rw [hreads] at heq
        injection heq with heq
        exact ⟨a, ha, hposition, hreads ▸ List.cons_ne_nil r rs, by rw [← heq]⟩
    · rw [if_neg hposition] at heq
      nomatch heq
  · rintro ⟨a, ha, hposition, hne, rfl⟩
    obtain ⟨r, rs, hreads⟩ := List.exists_cons_of_ne_nil hne
    refine ⟨?reported, List.mem_filterMap.mpr ⟨a, ha, ?found⟩, ?place⟩
    case found => rw [if_pos hposition, hreads]
    case place => rfl

/-- A position that is reported is reported without the lags. -/
theorem unshifted_signals_of_le {g g' : Graph} (h : g.Le g') {ctx ctx' : Context}
    (hroles : ctx'.roles = ctx.roles) {place : Lines}
    (hplace : ∃ m ∈ unshiftedSignals ctx' g', m.place = place) :
    ∃ m ∈ unshiftedSignals ctx g, m.place = place := by
  obtain ⟨a', ha', hposition, hne, rfl⟩ := mem_unshifted_signals.mp hplace
  obtain ⟨a, ha, hle⟩ := exists_left_of_mem h.assignments ha'
  rw [hroles] at hposition hne
  exact mem_unshifted_signals.mpr
    ⟨a, ha, hle.target_eq ▸ hposition, unlagged_signals_ne_nil hle hne, hle.place_eq.symm⟩

theorem future_read_place {r : Read} {place : Lines} :
    (∃ m ∈ futureRead r, m.place = place) ↔ r.lag.isNegative = true ∧ r.lines = place := by
  unfold futureRead Lag.isNegative
  cases hlag : r.lag with
  | none => simp
  | some n => by_cases hn : n < 0 <;> simp [hn]

theorem negative_of_le {a b : Lag} (h : Lag.le a b = true) (hb : b.isNegative = true) :
    a.isNegative = true := by
  cases a <;> cases b <;> simp only [Lag.le, Lag.isNegative, decide_eq_true_eq] at * <;> omega

theorem mem_forward_references {g : Graph} {place : Lines} :
    (∃ m ∈ forwardReferences g, m.place = place) ↔
      (∃ a ∈ g.assignments.toList, ∃ r ∈ a.reads, r.lag.isNegative = true ∧ r.lines = place) ∨
        ∃ f ∈ g.forward, f.extent.lines = place := by
  have hreads : (∃ m ∈ g.reads.filterMap fun r => futureRead r.2, m.place = place) ↔
      ∃ a ∈ g.assignments.toList, ∃ r ∈ a.reads, r.lag.isNegative = true ∧ r.lines = place := by
    simp only [← future_read_place, Graph.reads, List.mem_filterMap, List.mem_flatMap, List.mem_map]
    constructor
    · rintro ⟨m, ⟨_, ⟨a, ha, r, hr, rfl⟩, hm⟩, rfl⟩
      exact ⟨a, ha, r, hr, m, hm, rfl⟩
    · rintro ⟨a, ha, r, hr, m, hm, rfl⟩
      exact ⟨m, ⟨_, ⟨a, ha, r, hr, rfl⟩, hm⟩, rfl⟩
  rw [← hreads]
  unfold forwardReferences
  constructor
  · rintro ⟨m, hm, rfl⟩
    rcases List.mem_append.mp hm with hm | hm
    · exact .inl ⟨m, hm, rfl⟩
    · obtain ⟨f, hf, rfl⟩ := List.mem_map.mp hm
      exact .inr ⟨f, hf, rfl⟩
  · rintro (⟨m, hm, rfl⟩ | ⟨f, hf, rfl⟩)
    · exact ⟨m, List.mem_append_left _ hm, rfl⟩
    · exact ⟨futureIndex f, List.mem_append_right _ (List.mem_map_of_mem hf), rfl⟩

theorem forward_references_of_le {g g' : Graph} (h : g.Le g') {place : Lines}
    (hplace : ∃ m ∈ forwardReferences g', m.place = place) :
    ∃ m ∈ forwardReferences g, m.place = place := by
  refine mem_forward_references.mpr ?_
  rcases mem_forward_references.mp hplace with ⟨a', ha', r', hr', hneg, rfl⟩ | hforward
  · obtain ⟨a, ha, hle⟩ := exists_left_of_mem h.assignments ha'
    obtain ⟨r, hr, hread⟩ := exists_left_of_mem hle.reads hr'
    refine .inl ⟨a, ha, r, hr, negative_of_le hread.lag_le hneg, ?_⟩
    rw [Read.lines, Read.lines, hread.extent_eq]
  · exact .inr (h.forward_eq ▸ hforward)

/-- What the rules on lags report does not come from lagged reads. -/
theorem matches_of_le {g g' : Graph} (h : g.Le g') (ctx ctx' : Context)
    (hroles : ctx'.roles = ctx.roles) {r : Rule} (hr : r = .unshiftedSignal ∨ r = .forwardReference)
    {ms' : List Match} (hms' : r.findMatches ctx' g' = .ok ms') {m' : Match} (hm' : m' ∈ ms') :
    ∃ ms, r.findMatches ctx g = .ok ms ∧ ∃ m ∈ ms, m.place = m'.place := by
  rcases hr with rfl | rfl
  · injection hms' with hms'
    exact ⟨_, rfl, unshifted_signals_of_le h hroles ⟨m', hms' ▸ hm', rfl⟩⟩
  · injection hms' with hms'
    exact ⟨_, rfl, forward_references_of_le h ⟨m', hms' ▸ hm', rfl⟩⟩

/-! ## Reports on units -/

/-- Lagging column reads of assigned values by a bar leaves the assignments and their reads, makes
no shift and no lag smaller, and reports no unlagged signal and no later value that was not reported
before. -/
theorem lagged_reads_report_nothing_new (s : Settings) (unit : SourceUnit) (w : Places) :
    (Graph.ofUnit unit).Le (Graph.ofUnit (lagUnit w unit)) ∧
      ∀ fs', analyze s (lagUnit w unit) = .ok fs' → ∃ fs, analyze s unit = .ok fs ∧
        ∀ f' ∈ fs', f'.rule = Rule.unshiftedSignal.code ∨ f'.rule = Rule.forwardReference.code →
          ∃ f ∈ fs, f.key = f'.key := by
  have hgraph := graph_lag w unit
  refine ⟨hgraph, fun fs' hfs' => ?_⟩
  obtain ⟨hrange, hrules⟩ := analyze_succeeds_iff.mp ⟨fs', hfs'⟩
  obtain ⟨fs, hfs⟩ := analyze_succeeds_iff.mpr
    ⟨hgraph.range_eq ▸ hrange, fun r hr =>
      find_matches_of_le hgraph (context s (.ofUnit unit)) (hrules r hr)⟩
  refine ⟨fs, hfs, fun f' hf' hcode => ?_⟩
  obtain ⟨r, hr, ms', hms', m', hm', hkey⟩ := (analyze_keys hfs').mp ⟨f', hf', rfl⟩
  have hrule : f'.rule = r.code := congrArg FindingKey.rule hkey
  rw [hrule] at hcode
  obtain ⟨ms, hms, m, hm, hplace⟩ := matches_of_le hgraph (context s (.ofUnit unit))
    (context s (.ofUnit (lagUnit w unit)))
    ((context_roles s _).trans (context_roles s _).symm)
    (hcode.imp Rule.code_inj Rule.code_inj) hms' hm'
  rw [hkey, ← hplace]
  exact (analyze_keys hfs).mpr ⟨r, hr, ms, hms, m, hm, rfl⟩

/-- One of two signals is lagged, and a future price by less than it lies ahead. -/
def partlyLaggedText : String := "position = signal + 2 * alpha\nx = price.shift(-2)\n"

def partlyLagged : Places := fun path => path ∈ [[0, 0, 0], [1, 0, 0, 0]]

theorem partly_lagged_reads_report_nothing_new :
    ∃ unit, SourceUnit.parse partlyLaggedText "partly" = .ok unit ∧
      ∃ fs', analyze .standard (lagUnit partlyLagged unit) = .ok fs' ∧
        fs'.map Finding.key = [⟨"LB001", ⟨1, 1⟩⟩, ⟨"LB003", ⟨2, 2⟩⟩] ∧
        ∃ fs, analyze .standard unit = .ok fs ∧
          ∀ f' ∈ fs', f'.rule = Rule.unshiftedSignal.code ∨ f'.rule = Rule.forwardReference.code →
            ∃ f ∈ fs, f.key = f'.key := by
  have hfacts : SourceUnit.parsesTo partlyLaggedText "partly" (fun unit => decide
      ((analyze .standard (lagUnit partlyLagged unit)).toOption.map (·.map Finding.key) =
        some [⟨"LB001", ⟨1, 1⟩⟩, ⟨"LB003", ⟨2, 2⟩⟩])) = true := by
    decide +kernel
  obtain ⟨unit, hparse, hunit⟩ := SourceUnit.parses_to_iff.mp hfacts
  have hkeys := of_decide_eq_true hunit
  cases hfs' : analyze .standard (lagUnit partlyLagged unit) with
  | error a =>
    rw [hfs'] at hkeys
    nomatch hkeys
  | ok fs' =>
    rw [hfs'] at hkeys
    exact ⟨unit, hparse, fs', hfs', Option.some.inj hkeys,
      (lagged_reads_report_nothing_new .standard unit partlyLagged).2 fs' hfs'⟩

end BacktestAudit.Rules
