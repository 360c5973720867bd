import BacktestAudit.Proofs.Decimal.Signs
import BacktestAudit.Proofs.Statistics.Accepted
import BacktestAudit.Proofs.Statistics.Splits
import BacktestAudit.Statistics.Verdict

/-!
How the steps of a verdict fail: by a refusal with a cause of its own, or by accident, when a setting
is of no use to the step.
-/
namespace BacktestAudit.Statistics
open BacktestAudit.Data BacktestAudit.Data.Outcome BacktestAudit.Decimal
set_option autoImplicit false

/-! ## Kinds of failures -/

/-- A failure with a cause of its own. -/
def Refused (e : Failure) : Prop := ∃ r, e = .error r

def Accidental (e : Failure) : Prop := ∃ a, e = .accident a

theorem refused (r : AuditError) : Refused (.error r) := ⟨r, rfl⟩

theorem accidental (a : Accident) : Accidental (.accident a) := ⟨a, rfl⟩

theorem given_of_both {β : Type} {x : Except Failure β} (hr : FailsOnly Refused x)
    (ha : FailsOnly Accidental x) : ∃ b, x = .ok b := by
  cases hx : x with
  | ok b => exact ⟨b, rfl⟩
  | error e =>
    obtain ⟨r, rfl⟩ := hr e hx
    obtain ⟨a, h⟩ := ha _ hx
    nomatch h

theorem fails_only_accidental {β : Type} {x : Except Accident β} :
    FailsOnly Accidental (x.mapError .accident) :=
  FailsOnly.mapError fun a _ => accidental a

theorem fails_only_refused {β : Type} {x : Except Accident β} (h : ∃ b, x = .ok b) :
    FailsOnly Refused (x.mapError Failure.accident) := by
  obtain ⟨b, rfl⟩ := h
  exact FailsOnly.ok

/-! ## Brackets -/

theorem required_refuses {brackets : Brackets} (trials : Number) (h : brackets ≠ []) :
    FailsOnly Refused (requiredT brackets trials) := by
  unfold requiredT
  split
  · exact FailsOnly.error (refused _)
  · split
    · exact FailsOnly.ok
    · exact FailsOnly.error (refused _)
    · exact absurd rfl h

theorem t_statistic_refuses (xs : List Float) : FailsOnly Refused (tStatistic xs) := by
  unfold tStatistic
  split
  · exact FailsOnly.error (refused _)
  · exact FailsOnly.ok

/-! ## The deflated Sharpe ratio -/

theorem square_root_succeeds_iff {n : Number} :
    (∃ x, squareRoot n = .ok x) ↔ ∃ x, n.toFloat? = some x ∧ ¬ x < 0 := by
  unfold squareRoot toDouble
  cases n.toFloat? with
  | none => exact iff_of_false (fun ⟨_, h⟩ => nomatch h) (fun ⟨_, h, _⟩ => nomatch h)
  | some x =>
    simp only [Option.some.injEq, exists_eq_left']
    by_cases hx : x < 0
    · refine iff_of_false ?_ fun h => h hx
      rintro ⟨_, h⟩
      obtain ⟨_, ⟨⟩, h⟩ := bind_eq_ok.mp h
      rw [if_pos hx] at h
      cases h
    · refine iff_of_true ⟨Float.sqrt x, bind_eq_ok.mpr ⟨x, rfl, ?_⟩⟩ hx
      rw [if_neg hx]
      rfl

theorem expected_max_succeeds_iff {trials variance : Number} (h : trials.le (.int 1) = false) :
    (∃ x, expectedMaxSharpe trials variance = .ok x) ↔
      (∃ n, trials.toFloat? = some n) ∧ ∃ x, variance.toFloat? = some x ∧ ¬ x < 0 := by
  rw [← square_root_succeeds_iff]
  unfold expectedMaxSharpe
  rw [h, if_neg Bool.false_ne_true]
  simp only [bind_eq_ok, toDouble]
  constructor
  · rintro ⟨x, n, hn, root, hroot, -⟩
    refine ⟨?_, root, hroot⟩
    cases htrials : trials.toFloat? with
    | none =>
      rw [htrials] at hn
      cases hn
    | some y => exact ⟨y, rfl⟩
  · rintro ⟨⟨n, hn⟩, root, hroot⟩
    rw [hn]
    exact ⟨_, n, rfl, root, hroot, rfl⟩

theorem expected_max_of_one {trials variance : Number} (h : trials.le (.int 1) = true) :
    expectedMaxSharpe trials variance = .ok 0 := by
  unfold expectedMaxSharpe
  rw [if_pos h]
  rfl

/-- The variance that estimates have without any skill. -/
def unskilled (xs : List Float) : Number := .float (1 / Float.ofNat (xs.length - 1))

theorem deflated_sharpe_refuses {xs : List Float} {trials least : Number}
    {variance : Option Number}
    (h : ∃ best, expectedMaxSharpe trials (variance.getD (unskilled xs)) = .ok best) :
    FailsOnly Refused (deflatedSharpe xs trials least variance) := by
  unfold deflatedSharpe
  dsimp only
  split
  · exact .error (refused _)
  · exact (fails_only_refused h).bind fun _ _ => .ok

theorem deflated_sharpe_accidental {xs : List Float} {trials least : Number}
    {variance : Option Number} (h : minReturns ≤ xs.length) :
    FailsOnly Accidental (deflatedSharpe xs trials least variance) := by
  unfold deflatedSharpe
  dsimp only
  rw [if_neg (by omega)]
  exact fails_only_accidental.bind fun _ _ => .ok

theorem deflated_sharpe_ok {xs : List Float} {trials least : Number} {variance : Option Number}
    {d : DeflatedSharpe} (h : deflatedSharpe xs trials least variance = .ok d) :
    (∃ best, expectedMaxSharpe trials (variance.getD (unskilled xs)) = .ok best) ∧
      d.lowConfidence = ((Number.int xs.length).lt least || isZero (deviation 0 xs)) := by
  unfold deflatedSharpe at h
  dsimp only at h
  split at h
  · cases h
  · simp only [bind_eq_ok, map_error_eq_ok] at h
    obtain ⟨best, hbest, h⟩ := h
    cases h
    exact ⟨⟨best, hbest⟩, rfl⟩

/-! ## Numbers that doubles can hold -/

theorem held_of_exceeded {n : Number} {x : Float} (hx : Binary64.isFinite x = true)
    (hbelow : n.lt (.int 0) = true → ∃ y, n.toFloat? = some y)
    (h : n.toExtended.lt (Extended.ofFloat x) = true) : ∃ y, n.toFloat? = some y := by
  cases n with
  | truth b => exact ⟨_, rfl⟩
  | float y => exact ⟨y, rfl⟩
  | int k =>
    by_cases hneg : k < 0
    · refine hbelow ?_
      rw [Number.int_lt_int]
      exact decide_eq_true hneg
    · cases hfits : Binary64.intFits k with
      | true => exact ⟨_, if_pos hfits⟩
      | false =>
        rw [Number.toExtended, Binary64.not_lt_of_beyond hfits (by omega) hx] at h
        cases h

theorem share_held {n : Number} (h : StatisticsSettings.isShare n = true) :
    ∃ x, n.toFloat? = some x := by
  cases n with
  | truth b => exact ⟨_, rfl⟩
  | float y => exact ⟨y, rfl⟩
  | int k =>
    simp only [StatisticsSettings.isShare, Number.int_le_int, Bool.and_eq_true,
      decide_eq_true_eq] at h
    have hone : 1 ≤ greatest := one_le_widest 971
    exact ⟨_, if_pos (Binary64.int_fits_of_le (by omega))⟩

theorem positive_not_below {n : Number} {x : Float}
    (h : StatisticsSettings.isPositive n = true) (hx : n.toFloat? = some x) : ¬ x < 0 := by
  rw [StatisticsSettings.isPositive, Bool.not_eq_true'] at h
  cases n with
  | truth b =>
    cases hx
    exact not_below_zero (unsigned_of_int (by cases b <;> decide))
  | int k =>
    have hpos : 0 ≤ k := by
      rw [Number.int_le_int, decide_eq_false_iff_not] at h
      omega
    change (if Binary64.intFits k = true then some (Binary64.ofInt k) else none) = some x at hx
    split at hx
    · cases hx
      exact not_below_zero (unsigned_of_int hpos)
    · cases hx
  | float y =>
    cases hx
    intro hlt
    have hle := le_zero_of_lt hlt
    rw [Number.le, Number.toExtended, Number.toExtended, hle] at h
    cases h

theorem unskilled_not_below (xs : List Float) :
    ∃ x, (unskilled xs).toFloat? = some x ∧ ¬ x < 0 :=
  ⟨_, rfl, not_below_zero (unsigned_quotient (unsigned_of_nat 1) (unsigned_of_nat _))⟩

/-! ## Limits -/

/-- A limit that can be compared with and shown: a number, which doubles can hold if it is below
zero. -/
def IsLimit (v : Value) : Prop :=
  ∃ n, v.number? = some n ∧ (n.lt (.int 0) = true → ∃ x, n.toFloat? = some x)

theorem threshold_eq_ok {v : Value} {n : Number} :
    RedFlag.threshold? v = .ok n ↔ v.number? = some n := by
  unfold RedFlag.threshold?
  cases v.number? <;> simp

theorem shown_succeeds_iff (format : Float → String) {n : Number} :
    (∃ shown, RedFlag.shownAs format n = .ok shown) ↔ ∃ x, n.toFloat? = some x := by
  unfold RedFlag.shownAs
  cases n.toFloat? <;> simp

namespace RedFlag

variable {s : StatisticsSettings} {m : Metrics}

/-- A flag that is raised above a limit and shows it. -/
theorem limit_flag_succeeds_iff {v : Value} {x : Float} {format : Float → String}
    {flag : String → Number → RedFlag} :
    (∃ raised : Option RedFlag, (do
      let limit ← threshold? v
      if exceeds x limit then
        let shown ← shownAs format limit
        return some (flag shown limit)
      else return none) = .ok raised) ↔
    ∃ limit, v.number? = some limit ∧
      (exceeds x limit = true → ∃ y, limit.toFloat? = some y) := by
  simp only [bind_succeeds_iff, threshold_eq_ok]
  refine exists_congr fun limit => and_congr_right fun _ => ?_
  rw [← shown_succeeds_iff format]
  cases exceeds x limit with
  | false => exact iff_of_true ⟨none, rfl⟩ nofun
  | true =>
    simp only [if_true, bind_succeeds_iff, forall_const]
    exact exists_congr fun shown => and_iff_left ⟨_, rfl⟩

theorem sharpe_flag_succeeds_iff : (∃ raised, sharpeFlag s m = .ok raised) ↔
    ∃ limit, s.flagSharpe.number? = some limit ∧
      (exceeds m.sharpe limit = true → ∃ x, limit.toFloat? = some x) :=
  limit_flag_succeeds_iff

theorem win_rate_flag_succeeds_iff : (∃ raised, winRateFlag s m = .ok raised) ↔
    ∃ limit, s.flagWinRate.number? = some limit ∧
      (exceeds m.winRate limit = true → ∃ x, limit.toFloat? = some x) :=
  limit_flag_succeeds_iff

theorem return_flag_succeeds_iff : (∃ flag, returnFlag s m = .ok flag) ↔
    ∃ limit, s.flagTotalReturn.number? = some limit ∧
      (exceeds m.compoundedReturn limit = true → ∃ n, s.flagDrawdown.number? = some n) := by
  unfold returnFlag
  simp only [bind_succeeds_iff, threshold_eq_ok]
  refine exists_congr fun limit => and_congr_right fun _ => ?_
  cases exceeds m.compoundedReturn limit with
  | false => exact iff_of_true ⟨none, rfl⟩ nofun
  | true =>
    simp only [if_true, bind_succeeds_iff, threshold_eq_ok, forall_const]
    refine exists_congr fun n => and_iff_left ?_
    split <;> exact ⟨_, rfl⟩

theorem of_metrics_succeeds_iff : (∃ flags, RedFlag.ofMetrics s m = .ok flags) ↔
    (∃ flag, sharpeFlag s m = .ok flag) ∧ (∃ flag, returnFlag s m = .ok flag) ∧
      ∃ flag, winRateFlag s m = .ok flag := by
  have hall : (∃ flags, [sharpeFlag, returnFlag, winRateFlag].mapM (fun flag => flag s m) =
      .ok flags) ↔ _ := map_m_succeeds_iff
  unfold RedFlag.ofMetrics
  simp only [List.forall_mem_cons, List.not_mem_nil, false_imp_iff, implies_true, and_true] at hall
  rw [← hall, bind_succeeds_iff]
  exact exists_congr fun flags => and_iff_left ⟨_, rfl⟩

end RedFlag

/-! ## Gates -/

namespace Verdict

variable {s : Settings} {st : StatisticsSettings} {cancel : Nat → Bool} {m : Metrics}

/-- The best ratio that is expected of the variants of metrics. -/
def expectedOf (st : StatisticsSettings) (m : Metrics) : Except Accident Float :=
  expectedMaxSharpe (.int m.variantCount) (st.sharpeVariance.getD (unskilled m.returns))

theorem deflated_of_refuses (hbest : ∃ best, expectedOf st m = .ok best)
    (hleast : st.minObservations.isWritable = true) : FailsOnly Refused (deflatedOf st m) := by
  unfold deflatedOf
  refine (deflated_sharpe_refuses hbest).bind fun d _ => ?_
  rw [hleast, Bool.not_true, Bool.and_false]
  exact .ok

theorem deflated_of_accidental (h : minReturns ≤ m.returns.length) :
    FailsOnly Accidental (deflatedOf st m) := by
  unfold deflatedOf
  refine (deflated_sharpe_accidental h).bind fun d _ => ?_
  split
  · exact .error (accidental _)
  · exact .ok

theorem deflated_of_ok {d : DeflatedSharpe} (h : deflatedOf st m = .ok d) :
    (∃ best, expectedOf st m = .ok best) ∧
      ((Number.int m.returns.length).lt st.minObservations = true →
        st.minObservations.isWritable = true) := by
  unfold deflatedOf at h
  obtain ⟨found, hfound, h⟩ := bind_eq_ok.mp h
  obtain ⟨hbest, hlow⟩ := deflated_sharpe_ok hfound
  refine ⟨hbest, fun hfew => ?_⟩
  rw [hlow, hfew, Bool.true_or, Bool.true_and] at h
  cases hleast : st.minObservations.isWritable with
  | true => rfl
  | false =>
    rw [hleast] at h
    cases h

theorem two_places_succeeds {n : Number} (h : ∃ x, n.toFloat? = some x) :
    ∃ shown, twoPlaces n = .ok shown := by
  obtain ⟨shown, h⟩ := (shown_succeeds_iff (fixed 2)).mpr h
  exact ⟨shown, map_error_eq_ok.mpr h⟩

theorem deflated_failure_succeeds_iff {p : Float}
    (hpass : ∃ x, st.deflatedPass.toFloat? = some x) :
    (∃ failures, deflatedFailure st m p = .ok failures) ↔
      ∃ trigger, st.sharpeTrigger.number? = some trigger := by
  obtain ⟨shown, hshown⟩ := two_places_succeeds hpass
  unfold deflatedFailure
  simp only [bind_succeeds_iff, map_error_eq_ok, threshold_eq_ok]
  refine exists_congr fun trigger => and_iff_left ?_
  split
  · rw [hshown]
    exact ⟨_, rfl⟩
  · exact ⟨[], rfl⟩

theorem overfitting_failure_succeeds {p? : Option Float}
    (hpass : ∃ x, st.overfitPass.toFloat? = some x) :
    ∃ failures, overfittingFailure st m p? = .ok failures := by
  obtain ⟨shown, hshown⟩ := two_places_succeeds hpass
  unfold overfittingFailure
  split
  · exact ⟨_, rfl⟩
  · split
    · exact ⟨_, rfl⟩
    · split
      · rw [hshown]
        exact ⟨_, rfl⟩
      · exact ⟨_, rfl⟩

end Verdict

/-! ## Estimates -/

namespace Overfitting

variable {α : Type} [Scalar α] {plan : Plan} {cancel : Nat → Bool} {returns : Grid α}

theorem even_blocks_refuses (blocks : Number) : FailsOnly Refused (evenBlocks blocks) := by
  unfold evenBlocks
  dsimp only
  split
  · split
    · exact .error (refused _)
    · exact .ok
  · exact .error (refused _)

theorem refuse_data_refuses {β : Type} (reason minimum : String) :
    FailsOnly Refused (refuseData reason minimum : Except Failure β) :=
  .error (refused _)

theorem checked_rows_refuses {β : Type} {blocks : Number} {grid : Grid β}
    (h : blocks.isWritable = true) : FailsOnly Refused (checkedRows blocks grid) := by
  unfold checkedRows
  refine (even_blocks_refuses blocks).bind fun count _ => ?_
  rw [h, Bool.not_true]
  cases grid.rows? with
  | none => exact refuse_data_refuses _ _
  | some rows =>
    dsimp only
    split
    · refine FailsOnly.ok.bind fun found _ => ?_
      split
      · rw [if_neg Bool.false_ne_true]
        exact refuse_data_refuses _ _
      · split
        · exact refuse_data_refuses _ _
        · exact .ok
    · exact refuse_data_refuses _ _

/-- Plans by which splits are counted in any rows that are accepted. -/
structure Workable (plan : Plan) : Prop where
  blocks : plan.blocks.isWritable = true
  splits : ∃ splits, plan.splits = .ok splits ∧ splits.halves ≠ [] ∧
    ∃ parts, batchesOf plan.batchSize splits.halves = .ok parts ∧
      checkWorkers plan.workers parts.length = .ok ()

theorem estimate_refuses (h : Workable plan) : FailsOnly Refused (estimate plan cancel returns) := by
  obtain ⟨splits, hsplits, hne, parts, hparts, hworkers⟩ := h.splits
  unfold estimate
  refine (checked_rows_refuses h.blocks).bind fun rows _ => ?_
  rw [hsplits]
  refine FailsOnly.ok.bind fun _ hfound => ?_
  cases hfound
  rw [hparts]
  refine FailsOnly.ok.bind fun _ hfound => ?_
  cases hfound
  rw [hworkers]
  refine FailsOnly.ok.bind fun _ _ => ?_
  refine (FailsOnly.mapError fun r _ => refused r).bind fun degraded _ => ?_
  rw [if_neg fun hnone => hne (List.eq_nil_of_length_eq_zero hnone)]
  exact .ok

end Overfitting

namespace Verdict

variable {s : Settings} {cancel : Nat → Bool} {m : Metrics}

theorem overfitting_of_refuses (h : Overfitting.Workable (planOf s))
    (hseed : ∀ splits, (planOf s).splits = .ok splits → splits.exhaustive = false →
      s.statistics.seed.isWritable = true) : FailsOnly Refused (overfittingOf s cancel m) := by
  unfold overfittingOf
  split
  · exact .ok
  · refine (Overfitting.estimate_refuses h).bind fun e he => ?_
    obtain ⟨_, splits, _, -, hsplits, -, -, -, -, rfl⟩ := Overfitting.estimate_eq_ok.mp he
    have hfine : (!splits.exhaustive && !s.statistics.seed.isWritable) = false := by
      cases hexhaustive : splits.exhaustive with
      | true => rfl
      | false => rw [hseed splits hsplits hexhaustive]; rfl
    dsimp only
    split
    · next hshown => exact absurd (hshown.symm.trans hfine) nofun
    · exact .ok

end Verdict
end BacktestAudit.Statistics
