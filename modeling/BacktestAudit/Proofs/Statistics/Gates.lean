import BacktestAudit.Proofs.Settings.Checked
import BacktestAudit.Proofs.Statistics.Estimated
import BacktestAudit.Statistics.Verdict

/-!
The gates of a verdict. A verdict passes exactly when no gate names a failure. The deflated Sharpe
ratio and the overfitting estimate are always numbers, so their gates are met in the plain sense; the
t-statistic and its threshold may be no numbers, and then the gate between them is passed as well.
-/
namespace BacktestAudit.Statistics
open BacktestAudit.Data BacktestAudit.Data.Outcome BacktestAudit.Decimal
set_option autoImplicit false

/-! ## Numbers -/

theorem ne_nan_of_is_share {n : Number} (h : StatisticsSettings.isShare n = true) :
    n.toExtended ≠ .nan := by
  simp only [StatisticsSettings.isShare, Bool.and_eq_true] at h
  exact (Extended.ne_nan_of_le h.2).1

theorem upper_cut_ne_nan (q : Float) : Extended.ofFloat (if q < 1 then q else 1) ≠ .nan := by
  split
  · next hlt => exact (numbers_of_lt hlt).1
  · decide +kernel

theorem clamp_share_ne_nan (p : Float) : Extended.ofFloat (clampShare p) ≠ .nan :=
  upper_cut_ne_nan (if p > 0 then p else 0)

theorem deflated_sharpe_ne_nan {xs : List Float} {trials least : Number}
    {variance : Option Number} {d : DeflatedSharpe}
    (h : deflatedSharpe xs trials least variance = .ok d) :
    Extended.ofFloat d.probability ≠ .nan := by
  unfold deflatedSharpe at h
  dsimp only at h
  split at h
  · cases h
  · obtain ⟨best, -, h⟩ := bind_eq_ok.mp h
    cases h
    exact clamp_share_ne_nan _

namespace Verdict

variable {s : Settings} {cancel : Nat → Bool} {m : Metrics} {v : Verdict}

theorem deflated_ne_nan {st : StatisticsSettings} {d : DeflatedSharpe}
    (h : deflatedOf st m = .ok d) : Extended.ofFloat d.probability ≠ .nan := by
  unfold deflatedOf at h
  obtain ⟨found, hfound, h⟩ := bind_eq_ok.mp h
  split at h
  · cases h
  · cases h
    exact deflated_sharpe_ne_nan hfound

theorem overfitting_ne_nan {p : Float} {notes : List String}
    (h : overfittingOf s cancel m = .ok (some p, notes)) : Extended.ofFloat p ≠ .nan := by
  unfold overfittingOf at h
  split at h
  · cases h
  · obtain ⟨e, he, h⟩ := bind_eq_ok.mp h
    split at h
    · cases h
    · cases h
      exact Overfitting.probability_ne_nan he

/-! ## Failures -/

theorem t_failure_eq_nil_iff {required observed : Float} {trials : Int} :
    tFailure required observed trials = [] ↔ below observed (.float required) = false := by
  unfold tFailure
  split <;> simp_all

/-- The gate of the t-statistic is passed where its threshold is reached, and where either of them is
no number. -/
theorem t_gate_iff {required observed : Float} :
    below observed (.float required) = false ↔
      reaches observed (.float required) = true ∨ Extended.ofFloat observed = .nan ∨
        Extended.ofFloat required = .nan := by
  unfold below reaches Number.toExtended
  by_cases ho : Extended.ofFloat observed = .nan
  · simp [ho, Extended.nan_lt]
  · by_cases hr : Extended.ofFloat required = .nan
    · simp [hr, Extended.lt_nan]
    · simp [ho, hr, Extended.le_iff_not_lt ho hr]

theorem deflated_failure_eq_ok {st : StatisticsSettings} {p : Float} {fs : List String}
    (hp : Extended.ofFloat p ≠ .nan) (hpass : st.deflatedPass.toExtended ≠ .nan)
    (h : deflatedFailure st m p = .ok fs) :
    ∃ trigger, st.sharpeTrigger.number? = some trigger ∧
      (fs = [] ↔ (above m.sharpe trigger = true → reaches p st.deflatedPass = true)) := by
  unfold deflatedFailure at h
  obtain ⟨trigger, htrigger, h⟩ := bind_eq_ok.mp h
  refine ⟨trigger, ?_, ?_⟩
  · unfold RedFlag.threshold? at htrigger
    rw [map_error_eq_ok] at htrigger
    split at htrigger
    · next hn => cases htrigger; exact hn
    · cases htrigger
  · rw [reaches, Extended.le_iff_not_lt hp hpass]
    change fs = [] ↔ (_ → below p st.deflatedPass = false)
    split at h
    · next hc =>
      obtain ⟨_, -, h⟩ := bind_eq_ok.mp h
      cases h
      simp_all
    · next hc =>
      cases h
      simp_all

theorem overfitting_failure_eq_ok {st : StatisticsSettings} {p? : Option Float} {fs : List String}
    (hp : ∀ p ∈ p?, Extended.ofFloat p ≠ .nan) (hpass : st.overfitPass.toExtended ≠ .nan)
    (h : overfittingFailure st m p? = .ok fs) :
    fs = [] ↔ (1 < m.variantCount → ∃ p, p? = some p ∧ below p st.overfitPass = true) := by
  unfold overfittingFailure at h
  split at h
  · next hone =>
    cases h
    exact iff_of_true rfl fun hmany => absurd hone (by omega)
  · next hone =>
    have hmany : 1 < m.variantCount := by omega
    split at h
    · cases h
      simp [hmany]
    · next p =>
      have hbelow : below p st.overfitPass = true ↔ reaches p st.overfitPass = false := by
        rw [← Bool.not_eq_true, reaches, Extended.le_iff_not_lt (hp p rfl) hpass, below,
          Bool.not_eq_false]
      split at h
      · next hreaches =>
        obtain ⟨_, -, h⟩ := bind_eq_ok.mp h
        cases h
        simp [hmany, hbelow, hreaches]
      · next hreaches =>
        cases h
        simp [hbelow, hreaches]

theorem flag_failures_eq_nil_iff {flags : List RedFlag} :
    flagFailures flags = [] ↔ ∀ f ∈ flags, f.severity ≠ .stop := by
  unfold flagFailures
  simp [List.filter_eq_nil_iff]

/-! ## Passing -/

/-- A verdict on accepted settings passes exactly when the t-statistic reaches its threshold, unless
one of the two is no number, the deflated Sharpe ratio reaches its own where a high Sharpe ratio asks
for it, the overfitting estimate of several variants is there and below its threshold, and no flag
stops. -/
theorem passed_iff_gates {entries : Entries Value}
    (accepted : StatisticsSettings.ofEntries entries = .ok s.statistics)
    (h : Verdict.ofMetrics s cancel m = .ok v) :
    ∃ trigger, s.statistics.sharpeTrigger.number? = some trigger ∧
      (v.passed = true ↔
        (reaches v.observedT (.float v.requiredT) = true ∨ Extended.ofFloat v.observedT = .nan ∨
          Extended.ofFloat v.requiredT = .nan) ∧
        (above m.sharpe trigger = true → reaches v.deflatedSharpe s.statistics.deflatedPass = true) ∧
        (1 < m.variantCount →
          ∃ p, v.overfitting = some p ∧ below p s.statistics.overfitPass = true) ∧
        ∀ f ∈ v.redFlags, f.severity ≠ .stop) := by
  have checked := StatisticsSettings.checked_of_entries accepted
  unfold Verdict.ofMetrics at h
  dsimp only at h
  split at h
  · cases h
  · simp only [bind_eq_ok, map_error_eq_ok] at h
    obtain ⟨required, -, observed, -, deflated, hdeflated, ofDeflated, hfailure, ⟨p?, notes⟩, hp,
      ofEstimate, hestimate, flags, -, h⟩ := h
    cases h
    obtain ⟨trigger, htrigger, hgate⟩ := deflated_failure_eq_ok (deflated_ne_nan hdeflated)
      (ne_nan_of_is_share checked.deflated_pass) hfailure
    have hnumber : ∀ p ∈ p?, Extended.ofFloat p ≠ .nan := by
      rintro p ⟨⟩
      exact overfitting_ne_nan hp
    refine ⟨trigger, htrigger, ?_⟩
    rw [List.isEmpty_iff]
    simp only [List.append_eq_nil_iff, and_assoc]
    rw [t_failure_eq_nil_iff, t_gate_iff, hgate, flag_failures_eq_nil_iff,
      overfitting_failure_eq_ok hnumber (ne_nan_of_is_share checked.overfit_pass) hestimate]

/-- Two variants, one of which is better in both halves of the time. -/
def steadyVariants : Entries Value :=
  [("returns", .list [.float 0.01, .float 0.02, .float 0.015, .float 0.02]), ("sharpe", .float 1),
   ("max_drawdown", .float 0.2), ("win_rate", .float 0.5), ("variant_count", .int 2),
   ("variant_returns", .list [.list [.int 1, .int 0], .list [.int 2, .int 2],
     .list [.int 1, .int 0], .list [.int 2, .int 2]])]

theorem steady_variants_meet_gates :
    ∃ st m v, StatisticsSettings.ofEntries [("pbo_blocks", .int 2)] = .ok st ∧
      Metrics.ofEntries steadyVariants = .ok m ∧
      Verdict.ofMetrics { Settings.standard with statistics := st } (fun _ => false) m = .ok v ∧
      v.passed = true ∧ ∃ p, v.overfitting = some p ∧ below p st.overfitPass = true := by
  have h : (do
      let st ← (StatisticsSettings.ofEntries [("pbo_blocks", .int 2)]).mapError (·.toFailure)
      let m ← Metrics.ofEntries steadyVariants
      let v ← Verdict.ofMetrics { Settings.standard with statistics := st } (fun _ => false) m
      return (m.variantCount, v.passed) : Except Failure (Int × Bool)).toOption = some (2, true) := by
    decide +kernel
  simp only [to_option_eq_some, bind_eq_ok, map_error_eq_ok] at h
  obtain ⟨st, hst, m, hm, v, hv, h⟩ := h
  injection h with h
  injection h with hcount hpassed
  obtain ⟨_, -, hiff⟩ := passed_iff_gates hst hv
  exact ⟨st, m, v, hst, hm, hv, hpassed, (hiff.mp hpassed).2.2.1 (by rw [hcount]; decide)⟩

/-- Returns that are finite while their sum is not. -/
def overflowing : Entries Value :=
  [("returns", .list [.float 1e308, .float 1e308, .float 1e308]), ("sharpe", .float 1),
   ("max_drawdown", .float 0.2), ("win_rate", .float 0.5)]

/-- Accepted metrics pass on the standard settings though their t-statistic reaches no threshold. -/
theorem overflow_passes_unreached :
    ∃ m v, StatisticsSettings.ofEntries [] = .ok Settings.standard.statistics ∧
      Metrics.ofEntries overflowing = .ok m ∧
      Verdict.ofMetrics .standard (fun _ => false) m = .ok v ∧ v.passed = true ∧
      reaches v.observedT (.float v.requiredT) = false := by
  have h : (do
      let m ← Metrics.ofEntries overflowing
      let v ← Verdict.ofMetrics .standard (fun _ => false) m
      return (v.passed, reaches v.observedT (.float v.requiredT))).toOption = some (true, false) := by
    decide +kernel
  simp only [to_option_eq_some, bind_eq_ok] at h
  obtain ⟨m, hm, v, hv, h⟩ := h
  injection h with h
  injection h with hpassed hreaches
  exact ⟨m, v, rfl, hm, hv, hpassed, hreaches⟩

end Verdict
end BacktestAudit.Statistics
