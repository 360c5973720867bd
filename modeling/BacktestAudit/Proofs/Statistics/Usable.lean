import BacktestAudit.Proofs.Settings.Layering
import BacktestAudit.Proofs.Statistics.Steps
import BacktestAudit.Proofs.Statistics.Threshold

/-!
Which accepted settings are usable: a verdict by them on accepted metrics is given or refused, and
nothing ends by accident. The checks of settings compare numbers; that a number is whole, that a seed
can be used and that a number can be told is not checked, and usable are those settings that meet
these needs as well.
-/
namespace BacktestAudit.Statistics.Verdict
open BacktestAudit.Data BacktestAudit.Data.Outcome BacktestAudit.Decimal
set_option autoImplicit false

variable {s : Settings} {cancel : Nat → Bool} {m : Metrics}

/-! ## Usable settings -/

/-- What accepted settings have to meet for a verdict on any accepted metrics not to fail by
accident. -/
structure Usable (s : Settings) : Prop where
  /-- A low number of observations is told with the least one. -/
  observations : s.statistics.minObservations.isWritable = true
  variance : ∀ v ∈ s.statistics.sharpeVariance, ∃ x, v.toFloat? = some x
  trigger : ∃ n, s.statistics.sharpeTrigger.number? = some n
  /-- Rows that do not fit the blocks are told with their number. -/
  blocks : s.statistics.blocks.isWritable = true
  splits : ∃ most, s.statistics.maxExactBlocks.number? = some most ∧
    ∃ blocks : ℕ, s.statistics.blocks.toInt? = some (blocks : ℤ) ∧
      (s.statistics.blocks.le most = false →
        Overfitting.CanSample (planOf s).toSplitPlan blocks ∧ s.statistics.seed.isWritable = true)
  batch : ∃ size : ℕ, s.statistics.batchSize.toInt? = some (size : ℤ)
  /-- Several batches are waited for by a number of workers. -/
  workers : ∀ splits (size : ℕ), (planOf s).splits = .ok splits →
    s.statistics.batchSize.toInt? = some (size : ℤ) → size < splits.halves.length →
      ∀ w ∈ s.workers, w.toExtended ≠ .nan
  flag_sharpe : IsLimit s.statistics.flagSharpe
  flag_win_rate : IsLimit s.statistics.flagWinRate
  /-- The drawdown is looked at where some return, be it infinite, lies above the limit. -/
  flag_return : ∃ limit, s.statistics.flagTotalReturn.number? = some limit ∧
    (limit.toExtended.lt (.infinite false) = true →
      ∃ n, s.statistics.flagDrawdown.number? = some n)

theorem batch_size_given {size : ℕ} (h : s.statistics.batchSize.toInt? = some (size : ℤ)) :
    (planOf s).batchSize.number?.bind Number.toInt? = some (size : ℤ) := by
  rw [← h]
  exact congrArg (·.bind Number.toInt?) (Overfitting.number_of_value s.statistics.batchSize)

theorem workable_of_usable (h : Usable s) (checked : s.statistics.Checked)
    (hworkers : ∀ w ∈ s.workers, StatisticsSettings.isAtLeast 1 w = true) :
    Overfitting.Workable (planOf s) := by
  obtain ⟨most, hmost, blocks, hblocks, hsample⟩ := h.splits
  obtain ⟨splits, hsplits⟩ := Overfitting.splits_succeeds_iff.mpr
    ⟨most, hmost, blocks, hblocks, fun hle => (hsample hle).1⟩
  obtain ⟨size, hsize⟩ := h.batch
  have hpos := Overfitting.one_le_of_at_least checked.batch_size hsize
  have hne : splits.halves ≠ [] :=
    Overfitting.halves_ne_nil (Overfitting.number_of_value _) checked.max_sampled hsplits
  have hparts := Overfitting.batches_of_size (batch_size_given hsize) (by omega) splits.halves
  refine ⟨h.blocks, splits, hsplits, hne, _, hparts, ?_⟩
  refine (Overfitting.check_workers_iff hworkers).mpr fun hmany => ?_
  exact h.workers splits size hsplits hsize
    ((Overfitting.batch_count_ne_one_iff (by omega) hne).mp hmany)

theorem expected_of_usable (h : Usable s) (checked : s.statistics.Checked) (hm : m.Checked) :
    ∃ best, expectedOf s.statistics m = .ok best := by
  unfold expectedOf
  cases hone : (Number.int m.variantCount).le (.int 1) with
  | true => exact ⟨0, expected_max_of_one hone⟩
  | false =>
    refine (expected_max_succeeds_iff hone).mpr ⟨⟨_, if_pos hm.variant_count.2⟩, ?_⟩
    cases hv : s.statistics.sharpeVariance with
    | none => exact unskilled_not_below m.returns
    | some v =>
      obtain ⟨x, hx⟩ := h.variance v hv
      exact ⟨x, hx, positive_not_below (checked.sharpe_variance v hv) hx⟩

theorem flags_of_usable (h : Usable s) (hm : m.Checked) :
    ∃ flags, RedFlag.ofMetrics s.statistics m = .ok flags := by
  obtain ⟨sharpe, hsharpe, hsharpeHeld⟩ := h.flag_sharpe
  obtain ⟨rate, hrate, hrateHeld⟩ := h.flag_win_rate
  obtain ⟨limit, hlimit, hdrawdown⟩ := h.flag_return
  refine RedFlag.of_metrics_succeeds_iff.mpr ⟨?_, ?_, ?_⟩
  · exact RedFlag.sharpe_flag_succeeds_iff.mpr
      ⟨sharpe, hsharpe, held_of_exceeded hm.sharpe hsharpeHeld⟩
  · exact RedFlag.return_flag_succeeds_iff.mpr
      ⟨limit, hlimit, fun hexceeds => hdrawdown (Extended.lt_infinite hexceeds)⟩
  · exact RedFlag.win_rate_flag_succeeds_iff.mpr
      ⟨rate, hrate, held_of_exceeded hm.win_rate hrateHeld⟩

theorem refuses_of_usable (h : Usable s) (checked : s.statistics.Checked)
    (hworkers : ∀ w ∈ s.workers, StatisticsSettings.isAtLeast 1 w = true) (hm : m.Checked) :
    FailsOnly Refused (Verdict.ofMetrics s cancel m) := by
  have hbrackets : s.statistics.thresholds ≠ [] := by
    obtain ⟨b, hb, -⟩ := checked.single_trial
    exact List.ne_nil_of_mem hb
  have hseed : ∀ splits, (planOf s).splits = .ok splits → splits.exhaustive = false →
      s.statistics.seed.isWritable = true := by
    intro splits hsplits hexhaustive
    obtain ⟨most, hmost, blocks, -, hsample⟩ := h.splits
    rw [Overfitting.exhaustive_of_splits hsplits hmost] at hexhaustive
    exact (hsample hexhaustive).2
  unfold Verdict.ofMetrics
  dsimp only
  split
  · exact .error (refused _)
  refine (required_refuses _ hbrackets).bind fun required _ => ?_
  refine (t_statistic_refuses _).bind fun observed _ => ?_
  refine (deflated_of_refuses (expected_of_usable h checked hm) h.observations).bind fun d _ => ?_
  obtain ⟨ofDeflated, hdeflated⟩ := (deflated_failure_succeeds_iff (m := m) (p := d.probability)
    (share_held checked.deflated_pass)).mpr h.trigger
  rw [hdeflated]
  refine FailsOnly.ok.bind fun _ _ => ?_
  refine (overfitting_of_refuses (workable_of_usable h checked hworkers) hseed).bind fun found _ => ?_
  obtain ⟨p?, notes⟩ := found
  obtain ⟨ofEstimate, hestimate⟩ : ∃ failures, overfittingFailure s.statistics m p? = .ok failures :=
    overfitting_failure_succeeds (share_held checked.overfit_pass)
  dsimp only
  rw [hestimate]
  refine FailsOnly.ok.bind fun _ _ => ?_
  exact (fails_only_refused (flags_of_usable h hm)).bind fun _ _ => .ok

/-! ## What every verdict needs -/

def unbounded : List Float := [1e308, 1e308, 1e308]

def idle (rows : ℕ) : List (List Float) := List.replicate rows [0, 0]

def trial (rows : ℕ) : Metrics := Metrics.plain unbounded (idle rows)

theorem trial_made {rows : ℕ} (h : 0 < rows) :
    Metrics.make (Metrics.plainEntries unbounded (idle rows)) = .ok (trial rows) := by
  have hrow : ∀ row ∈ idle rows, row = [0, 0] := fun row hrow => List.eq_of_mem_replicate hrow
  refine Metrics.make_of_plain 2 ?_ ?_ (fun row h => ?_) (le_refl 2) fun row h => ?_
  · decide +kernel
  · simp [idle]
    omega
  · rw [hrow row h]
    rfl
  · rw [hrow row h]
    decide +kernel

theorem estimate_accidental {plan : Overfitting.Plan} {returns : Grid Float}
    (h : FailsOnly Accidental (Overfitting.checkedRows plan.blocks returns)) :
    FailsOnly Accidental (Overfitting.estimate plan (fun _ => false) returns) := by
  unfold Overfitting.estimate
  refine h.bind fun rows _ => ?_
  refine fails_only_accidental.bind fun splits _ => ?_
  refine fails_only_accidental.bind fun parts _ => ?_
  refine fails_only_accidental.bind fun _ _ => ?_
  dsimp only
  rw [Overfitting.count_batches_eq_ok.mpr ⟨fun _ _ => rfl, rfl⟩]
  refine FailsOnly.ok.bind fun _ _ => ?_
  split
  · exact .error (accidental _)
  · exact .ok

theorem overfitting_of_accidental {rows : ℕ}
    (h : FailsOnly Accidental (Overfitting.checkedRows s.statistics.blocks (.ofRows (idle rows)))) :
    FailsOnly Accidental (overfittingOf s (fun _ => false) (trial rows)) := by
  change FailsOnly Accidental (Overfitting.estimate (planOf s) (fun _ => false)
    (.ofRows (idle rows)) >>= _)
  refine (estimate_accidental h).bind fun e _ => ?_
  split
  · exact .error (accidental _)
  · exact .ok

theorem deflated_failure_accidental {st : StatisticsSettings} (p : Float) :
    FailsOnly Accidental (deflatedFailure st m p) := by
  unfold deflatedFailure
  refine fails_only_accidental.bind fun trigger _ => ?_
  split
  · exact fails_only_accidental.bind fun _ _ => .ok
  · exact .ok

theorem overfitting_failure_accidental {st : StatisticsSettings} (p? : Option Float) :
    FailsOnly Accidental (overfittingFailure st m p?) := by
  unfold overfittingFailure
  split
  · exact .ok
  · split
    · exact .ok
    · split
      · exact fails_only_accidental.bind fun _ _ => .ok
      · exact .ok

theorem trial_accidental {rows : ℕ}
    (hrequired : ∃ x, Statistics.requiredT s.statistics.thresholds (.int 1) = .ok x)
    (hrows : FailsOnly Accidental
      (Overfitting.checkedRows s.statistics.blocks (.ofRows (idle rows)))) :
    FailsOnly Accidental (Verdict.ofMetrics s (fun _ => false) (trial rows)) := by
  have hthree : (trial rows).returns.length = 3 := rfl
  obtain ⟨required, hrequired⟩ := hrequired
  unfold Verdict.ofMetrics
  dsimp only
  rw [hthree, if_neg (by decide)]
  change FailsOnly Accidental (Statistics.requiredT s.statistics.thresholds (.int 1) >>= _)
  rw [hrequired]
  refine FailsOnly.ok.bind fun _ _ => ?_
  refine FailsOnly.bind (x := tStatistic (trial rows).returns) .ok fun _ _ => ?_
  refine (deflated_of_accidental (Nat.le_of_eq hthree.symm)).bind fun d _ => ?_
  refine (deflated_failure_accidental _).bind fun _ _ => ?_
  refine (overfitting_of_accidental hrows).bind fun found _ => ?_
  refine (overfitting_failure_accidental _).bind fun _ _ => ?_
  exact fails_only_accidental.bind fun _ _ => .ok

/-- A verdict takes all its steps. -/
theorem steps_of_given {v : Verdict} (h : Verdict.ofMetrics s cancel m = .ok v) :
    (∃ d, deflatedOf s.statistics m = .ok d ∧
      ∃ failures, deflatedFailure s.statistics m d.probability = .ok failures) ∧
    (∃ found, overfittingOf s cancel m = .ok found) ∧
      ∃ flags, RedFlag.ofMetrics s.statistics m = .ok flags := by
  unfold Verdict.ofMetrics at h
  dsimp only at h
  split at h
  · cases h
  · simp only [bind_eq_ok, map_error_eq_ok] at h
    obtain ⟨_, -, _, -, d, hd, _, hfailure, ⟨_, _⟩, hfound, _, -, flags, hflags, -⟩ := h
    exact ⟨⟨d, hd, _, hfailure⟩, ⟨_, hfound⟩, flags, hflags⟩

theorem even_blocks_of_accepted {n : Number} (hleast : StatisticsSettings.isAtLeast 2 n = true)
    (heven : StatisticsSettings.isEven n = true) :
    ∃ count, Overfitting.evenBlocks n = .ok count ∧ 2 ≤ count ∧ ∀ k, n = .int k → count = k := by
  have hpos := @Overfitting.den_pos n
  have hint : ∀ k, n = .int k → n.toExtended = .ratio k 1 := by
    rintro k rfl
    rfl
  unfold StatisticsSettings.isAtLeast Number.lt at hleast
  unfold StatisticsSettings.isEven at heven
  unfold Overfitting.evenBlocks
  generalize n.toExtended = x at hleast heven hpos hint ⊢
  cases x with
  | nan => cases heven
  | infinite negative => cases heven
  | ratio num den =>
    have hden := hpos rfl
    simp only [Extended.lt, Number.toExtended, Extended.ofInt, Bool.not_eq_true',
      decide_eq_false_iff_not] at hleast
    simp only [decide_eq_true_eq] at heven
    refine ⟨num / den, ?_, ?_, ?_⟩
    · dsimp only
      rw [if_neg]
      simp only [Bool.or_eq_true, decide_eq_true_eq]
      omega
    · refine Int.le_ediv_of_mul_le (by omega) ?_
      omega
    · intro k hk
      have h := hint k hk
      cases h
      simp

theorem writable_of_digits {n : ℤ} (digits : ℕ) (hfew : digits ≤ maxDecimalDigits)
    (h : n.natAbs < 10 ^ digits) : Value.isWritableInt n = true := by
  rw [Value.isWritableInt, decide_eq_true_eq]
  generalize maxDecimalDigits = limit at hfew ⊢
  exact lt_of_lt_of_le h (Nat.pow_le_pow_right (by decide) hfew)

theorem unwritable_is_large {n : Number} (h : n.isWritable = false) :
    ∃ k : ℤ, n = .int k ∧ 10 ≤ k.natAbs := by
  cases n with
  | truth b => cases h
  | float x => cases h
  | int k =>
    refine ⟨k, rfl, ?_⟩
    by_contra hsmall
    have hwritable : Value.isWritableInt k = true :=
      writable_of_digits 1 (by decide) (by omega)
    exact absurd (hwritable.symm.trans h) nofun

theorem idle_width (rows : ℕ) : ∀ row ∈ idle rows, row.length = 2 :=
  fun row hrow => by rw [List.eq_of_mem_replicate hrow]; rfl

/-- Four rows do not fit a number of blocks that is too long to be told. -/
theorem checked_rows_of_unwritable {blocks : Number}
    (hleast : StatisticsSettings.isAtLeast 2 blocks = true)
    (heven : StatisticsSettings.isEven blocks = true) (h : blocks.isWritable = false) :
    Overfitting.checkedRows blocks (.ofRows (idle 4)) = .error (.accident .wrongValue) := by
  obtain ⟨k, hk, hlarge⟩ := unwritable_is_large h
  obtain ⟨count, hcount, htwo, hcountk⟩ := even_blocks_of_accepted hleast heven
  obtain rfl := hcountk k hk
  unfold Overfitting.checkedRows
  rw [hcount, Overfitting.rows_of_rows (idle_width 4), h]
  change (if (decide ((4 : ℤ) < count) || decide ((4 : ℤ) % count ≠ 0)) = true then _ else _) = _
  rw [if_pos (by simp; omega)]
  rfl

theorem checked_rows_of_twice {blocks : Number} {count : ℕ} (htwo : 2 ≤ count)
    (h : Overfitting.evenBlocks blocks = .ok (count : ℤ)) :
    Overfitting.checkedRows blocks (.ofRows (idle (2 * count))) = .ok (idle (2 * count)) := by
  have hlength : (idle (2 * count)).length = 2 * count := List.length_replicate
  refine (Overfitting.checked_rows_of_rows (idle_width _)).mpr ⟨rfl, le_refl 2, ?_, count, h, ?_, ?_⟩
  · rw [hlength]
    omega
  · rw [hlength]
    omega
  · rw [hlength, Nat.cast_mul]
    exact Int.mul_emod_left ..

theorem overfitting_of_ok {found : Option Float × List String} {table : List (List Float)}
    (htable : m.variantReturns = some table) (h : overfittingOf s cancel m = .ok found) :
    ∃ e, Overfitting.estimate (planOf s) cancel (.ofRows table) = .ok e ∧
      (e.exhaustive = false → s.statistics.seed.isWritable = true) := by
  unfold overfittingOf at h
  rw [htable] at h
  obtain ⟨e, he, h⟩ := bind_eq_ok.mp h
  refine ⟨e, he, fun hexhaustive => ?_⟩
  dsimp only at h
  rw [hexhaustive, Bool.not_false, Bool.true_and] at h
  cases hshown : s.statistics.seed.isWritable with
  | true => rfl
  | false =>
    rw [hshown] at h
    cases h

theorem observations_of_given {d : DeflatedSharpe} {rows : ℕ}
    (hleast : StatisticsSettings.isAtLeast 3 s.statistics.minObservations = true)
    (h : deflatedOf s.statistics (trial rows) = .ok d) :
    s.statistics.minObservations.isWritable = true := by
  by_contra hlong
  rw [Bool.not_eq_true] at hlong
  obtain ⟨k, hk, hlarge⟩ := unwritable_is_large hlong
  have hthree : 3 ≤ k := by
    rw [hk] at hleast
    simpa [StatisticsSettings.isAtLeast, Number.int_lt_int] using hleast
  have hfew : (Number.int 3).lt s.statistics.minObservations = true := by
    rw [hk, Number.int_lt_int]
    exact decide_eq_true (by omega)
  have hshown := (deflated_of_ok h).2 hfew
  rw [hlong] at hshown
  cases hshown

theorem variance_of_given {d : DeflatedSharpe} {rows : ℕ}
    (h : deflatedOf s.statistics (trial rows) = .ok d) :
    ∀ v ∈ s.statistics.sharpeVariance, ∃ x, v.toFloat? = some x := by
  intro v hv
  have htwo : (Number.int 2).le (.int 1) = false := by decide
  obtain ⟨-, x, hx, -⟩ := (expected_max_succeeds_iff htwo).mp (deflated_of_ok h).1
  rw [hv] at hx
  exact ⟨x, hx⟩

theorem exceeds_of_negative {x : Float} {n : Number} {num : ℤ} {den : ℕ}
    (hx : Extended.ofFloat x = .ratio num den) (hnum : 0 ≤ num) (h : n.lt (.int 0) = true) :
    RedFlag.exceeds x n = true := by
  unfold RedFlag.exceeds
  unfold Number.lt at h
  rw [hx]
  have hden := ratio_pos hx
  generalize n.toExtended = y at h ⊢
  cases y with
  | nan => cases h
  | infinite negative => exact h
  | ratio a b =>
    simp only [Extended.lt, Number.toExtended, Extended.ofInt, decide_eq_true_eq] at h ⊢
    have hneg : a < 0 := by omega
    calc a * den < 0 := Int.mul_neg_of_neg_of_pos hneg (by omega)
      _ ≤ num * b := Int.mul_nonneg hnum (by omega)

theorem limit_of_given {x : Float} {v : Value} {num : ℤ} {den : ℕ}
    (hx : Extended.ofFloat x = .ratio num den) (hnum : 0 ≤ num)
    (h : ∃ limit, v.number? = some limit ∧
      (RedFlag.exceeds x limit = true → ∃ y, limit.toFloat? = some y)) : IsLimit v := by
  obtain ⟨limit, hlimit, hheld⟩ := h
  exact ⟨limit, hlimit, fun hneg => hheld (exceeds_of_negative hx hnum hneg)⟩

theorem workers_of_given {splits : Overfitting.Splits} {parts : List (List (List ℕ))} {size : ℕ}
    (hworkers : ∀ w ∈ s.workers, StatisticsSettings.isAtLeast 1 w = true)
    (hsize : s.statistics.batchSize.toInt? = some (size : ℤ)) (hpos : 1 ≤ size)
    (hmany : size < splits.halves.length)
    (hparts : Overfitting.batchesOf (planOf s).batchSize splits.halves = .ok parts)
    (hwork : Overfitting.checkWorkers (planOf s).workers parts.length = .ok ()) :
    ∀ w ∈ s.workers, w.toExtended ≠ .nan := by
  rw [Overfitting.batches_of_size (batch_size_given hsize) hpos, Except.ok.injEq] at hparts
  subst hparts
  have hne : splits.halves ≠ [] := List.ne_nil_of_length_pos (by omega)
  exact (Overfitting.check_workers_iff hworkers).mp hwork
    ((Overfitting.batch_count_ne_one_iff hpos hne).mpr hmany)

theorem sharpe_of_trial (rows : ℕ) :
    Extended.ofFloat (trial rows).sharpe = .ratio 4503599627370496 4503599627370496 := by
  change Extended.ofFloat 1 = _
  decide +kernel

theorem win_rate_of_trial (rows : ℕ) :
    Extended.ofFloat (trial rows).winRate = .ratio 4503599627370496 9007199254740992 := by
  change Extended.ofFloat 0.5 = _
  decide +kernel

theorem compounded_of_trial (rows : ℕ) :
    Extended.ofFloat (trial rows).compoundedReturn = .infinite false := by
  change Extended.ofFloat ((unbounded.map (1 + ·)).foldl (· * ·) 1 - 1) = _
  decide +kernel

/-- Settings that a trial with twice as many rows as blocks is told by, and by which four rows can be
refused, are usable. -/
theorem usable_of_trial {v : Verdict} {rows : ℕ} (checked : s.statistics.Checked)
    (hworkers : ∀ w ∈ s.workers, StatisticsSettings.isAtLeast 1 w = true)
    (hblocks : s.statistics.blocks.isWritable = true)
    (h : Verdict.ofMetrics s (fun _ => false) (trial rows) = .ok v) : Usable s := by
  obtain ⟨⟨d, hd, failures, hfailures⟩, ⟨found, hfound⟩, flags, hflags⟩ := steps_of_given h
  obtain ⟨hsharpe, hreturn, hrate⟩ := RedFlag.of_metrics_succeeds_iff.mp ⟨flags, hflags⟩
  obtain ⟨e, he, hseed⟩ := overfitting_of_ok rfl hfound
  obtain ⟨_, splits, parts, -, hsplits, hparts, hwork, -, htotal, rfl⟩ :=
    Overfitting.estimate_eq_ok.mp he
  obtain ⟨most, hmost, blocks, hcount, hsample⟩ :=
    Overfitting.splits_succeeds_iff.mp ⟨splits, hsplits⟩
  obtain ⟨n, hn⟩ := (Overfitting.batches_of_succeeds_iff checked.batch_size).mp ⟨parts, hparts⟩
  have hpos := Overfitting.one_le_of_at_least checked.batch_size hn
  exact {
    observations := observations_of_given checked.min_observations hd
    variance := variance_of_given hd
    trigger := (deflated_failure_succeeds_iff (share_held checked.deflated_pass)).mp
      ⟨failures, hfailures⟩
    blocks := hblocks
    splits := ⟨most, hmost, blocks, hcount, fun hle => ⟨hsample hle, hseed
      ((Overfitting.exhaustive_of_splits hsplits hmost).trans hle)⟩⟩
    batch := ⟨n.toNat, by rw [hn, Int.toNat_of_nonneg (by omega)]⟩
    workers := fun splits' size hsplits' hsize hmany => by
      cases hsplits.symm.trans hsplits'
      have hone := Overfitting.one_le_of_at_least checked.batch_size hsize
      exact workers_of_given hworkers hsize (by omega) hmany hparts hwork
    flag_sharpe := limit_of_given (sharpe_of_trial rows) (by decide)
      (RedFlag.sharpe_flag_succeeds_iff.mp hsharpe)
    flag_win_rate := limit_of_given (win_rate_of_trial rows) (by decide)
      (RedFlag.win_rate_flag_succeeds_iff.mp hrate)
    flag_return := by
      obtain ⟨limit, hlimit, hdrawdown⟩ := RedFlag.return_flag_succeeds_iff.mp hreturn
      refine ⟨limit, hlimit, fun hinside => hdrawdown ?_⟩
      rw [RedFlag.exceeds, compounded_of_trial]
      exact hinside }

theorem checked_of_settings {entries : Entries Value} (h : Settings.make entries = .ok s) :
    s.statistics.Checked ∧ StatisticsSettings.Ordered s.statistics.thresholds ∧
      ∀ w ∈ s.workers, StatisticsSettings.isAtLeast 1 w = true := by
  unfold Settings.make at h
  simp only [bind_eq_ok] at h
  obtain ⟨_, -, patterns, -, given, -, statistics, hstatistics, h⟩ := h
  rw [Settings.of_entries_eq] at h
  simp only [bind_eq_ok] at h
  obtain ⟨_, -, _, -, workers, hworkers, h⟩ := h
  cases h
  exact ⟨StatisticsSettings.checked_of_entries hstatistics,
    StatisticsSettings.ordered_of_entries hstatistics,
    StatisticsSettings.checked_optional_ok hworkers⟩

/-- Accepted settings are usable exactly when a verdict by them on any accepted metrics is given or
refused. -/
theorem usable_iff {entries : Entries Value} (accepted : Settings.make entries = .ok s) :
    Usable s ↔ ∀ fields m cancel, Metrics.make fields = .ok m →
      (∃ v, Verdict.ofMetrics s cancel m = .ok v) ∨
        ∃ e, Verdict.ofMetrics s cancel m = .error (.error e) := by
  obtain ⟨checked, hordered, hworkers⟩ := checked_of_settings accepted
  constructor
  · intro h fields m cancel hm
    have hrefuses : FailsOnly Refused (Verdict.ofMetrics s cancel m) :=
      refuses_of_usable h checked hworkers (Metrics.checked_of_make hm)
    cases hv : Verdict.ofMetrics s cancel m with
    | ok v => exact .inl ⟨v, rfl⟩
    | error e =>
      obtain ⟨r, rfl⟩ := hrefuses e hv
      exact .inr ⟨r, rfl⟩
  · intro h
    obtain ⟨_, _, -, -, hrequired⟩ :=
      required_of_reached hordered checked.single_trial (Int.le_refl 1)
    obtain ⟨count, hcount, htwo, -⟩ := even_blocks_of_accepted checked.blocks.1 checked.blocks.2
    -- A trial can only fail by accident, so that it is given by settings that never do.
    have hgiven : ∀ rows, 0 < rows → FailsOnly Accidental
        (Overfitting.checkedRows s.statistics.blocks (.ofRows (idle rows))) →
        ∃ v, Verdict.ofMetrics s (fun _ => false) (trial rows) = .ok v := by
      intro rows hrows haccidental
      refine given_of_both (fun e he => ?_) (trial_accidental ⟨_, hrequired⟩ haccidental)
      rcases h _ _ (fun _ => false) (trial_made hrows) with ⟨v, hv⟩ | ⟨r, hr⟩
      · rw [hv] at he
        cases he
      · rw [hr] at he
        cases he
        exact refused r
    have hblocks : s.statistics.blocks.isWritable = true := by
      by_contra hlong
      rw [Bool.not_eq_true] at hlong
      have hrows := checked_rows_of_unwritable checked.blocks.1 checked.blocks.2 hlong
      obtain ⟨v, hv⟩ := hgiven 4 (by decide) (by rw [hrows]; exact .error (accidental _))
      obtain ⟨-, ⟨found, hfound⟩, -⟩ := steps_of_given hv
      obtain ⟨e, he, -⟩ := overfitting_of_ok rfl hfound
      obtain ⟨rows, _, _, hfine, -⟩ := Overfitting.estimate_eq_ok.mp he
      exact absurd (hrows.symm.trans hfine) nofun
    have hwhole : ((count.toNat : ℕ) : ℤ) = count := Int.toNat_of_nonneg (by omega)
    have hrows : Overfitting.checkedRows s.statistics.blocks (.ofRows (idle (2 * count.toNat))) =
        .ok (idle (2 * count.toNat)) :=
      checked_rows_of_twice (by omega) (by rw [hwhole]; exact hcount)
    obtain ⟨v, hv⟩ := hgiven (2 * count.toNat) (by omega) (by rw [hrows]; exact .ok)
    exact usable_of_trial checked hworkers hblocks hv

theorem standard_usable : Usable .standard where
  observations := @writable_of_digits 20 2 (by decide) (by decide)
  variance := nofun
  trigger := ⟨_, rfl⟩
  blocks := @writable_of_digits 16 2 (by decide) (by decide)
  splits := ⟨.int 20, rfl, 16, rfl, nofun⟩
  batch := ⟨256, rfl⟩
  workers := fun _ _ _ _ _ => nofun
  flag_sharpe := ⟨_, rfl, fun _ => ⟨_, rfl⟩⟩
  flag_win_rate := ⟨_, rfl, fun _ => ⟨_, rfl⟩⟩
  flag_return := ⟨_, rfl, fun _ => ⟨_, rfl⟩⟩

/-- The standard settings are usable, so all accepted metrics get a verdict by them or are refused. -/
theorem standard_verdicts : Settings.make [] = .ok .standard ∧ ∀ fields m cancel,
    Metrics.make fields = .ok m → (∃ v, Verdict.ofMetrics .standard cancel m = .ok v) ∨
      ∃ e, Verdict.ofMetrics .standard cancel m = .error (.error e) := by
  have accepted : Settings.make [] = .ok .standard := rfl
  exact ⟨accepted, (usable_iff accepted).mp standard_usable⟩

def fourRows : Entries Value := Metrics.plainEntries [0.01, 0.02, 0.015] (idle 4)

/-- A number of blocks that is even but no integer is accepted, and ends a verdict by accident. -/
theorem double_blocks_end_verdict :
    ∃ s m, Settings.make [("statistics", .table [("pbo_blocks", .float 2)])] = .ok s ∧
      Metrics.make fourRows = .ok m ∧
      Verdict.ofMetrics s (fun _ => false) m = .error (.accident .wrongKind) := by
  have h : (do
      let s ← (Settings.make [("statistics", .table [("pbo_blocks", .float 2)])]).toOption
      let m ← (Metrics.make fourRows).toOption
      return (Verdict.ofMetrics s (fun _ => false) m).map fun _ => ()) =
        some (.error (.accident .wrongKind)) := by decide +kernel
  simp only [Option.bind_eq_bind, Option.bind_eq_some_iff, to_option_eq_some] at h
  obtain ⟨s, hs, m, hm, h⟩ := h
  refine ⟨s, m, hs, hm, ?_⟩
  cases hv : Verdict.ofMetrics s (fun _ => false) m with
  | ok v =>
    rw [hv] at h
    cases h
  | error e =>
    rw [hv] at h
    exact congrArg Except.error (Except.error.inj (Option.some.inj h))

end BacktestAudit.Statistics.Verdict
