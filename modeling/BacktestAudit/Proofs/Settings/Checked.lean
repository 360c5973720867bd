import BacktestAudit.Data.Outcome
import BacktestAudit.Settings.Statistics

/-!
What the checks of statistical settings leave: all that is accepted meets every check, and so does
what is taken when nothing is given.
-/
namespace BacktestAudit.StatisticsSettings
open BacktestAudit.Data BacktestAudit.Data.Outcome BacktestAudit.Decimal Settings
set_option autoImplicit false

/-- Settings that meet all checks. -/
structure Checked (s : StatisticsSettings) : Prop where
  single_trial : ∃ b ∈ s.thresholds, b.1 = 1
  monotone : isMonotone s.thresholds = true
  min_observations : isAtLeast 3 s.minObservations = true
  deflated_pass : isShare s.deflatedPass = true
  sharpe_variance : ∀ n ∈ s.sharpeVariance, isPositive n = true
  blocks : isAtLeast 2 s.blocks = true ∧ isEven s.blocks = true
  max_sampled : isAtLeast 1 s.maxSampled = true
  batch_size : isAtLeast 1 s.batchSize = true
  overfit_pass : isShare s.overfitPass = true

theorem standard_brackets_checked :
    (∃ b ∈ standardBrackets, b.1 = 1) ∧ isMonotone standardBrackets = true := by decide

theorem brackets_checked {v : Value} {bs : Brackets} (h : brackets v = .ok bs) :
    (∃ b ∈ bs, b.1 = 1) ∧ isMonotone bs = true := by
  unfold brackets at h
  split at h
  · simp only [bind_eq_ok] at h
    obtain ⟨_, _, _, _, h⟩ := h
    split at h
    · cases h
    · split at h
      · cases h
      · cases h
        simp_all
  · cases h

theorem brackets_of_checked {entries : Entries Value} {bs : Brackets}
    (h : bracketsOf entries = .ok bs) : (∃ b ∈ bs, b.1 = 1) ∧ isMonotone bs = true := by
  unfold bracketsOf at h
  split at h
  · exact brackets_checked h
  · cases h
    exact standard_brackets_checked

theorem checked_optional_ok {v : Value} {condition : Number → Bool} {reason : String}
    {n? : Option Number} (h : checkedOptional v condition reason = .ok n?) :
    ∀ n ∈ n?, condition n = true := by
  unfold checkedOptional at h
  split at h
  · cases h
    simp
  · obtain ⟨n, hn, rfl⟩ := map_eq_ok.mp h
    rintro _ ⟨⟩
    exact (checked_number_ok hn).1

theorem checked_of_entries {entries : Entries Value} {s : StatisticsSettings}
    (h : ofEntries entries = .ok s) : s.Checked := by
  unfold ofEntries at h
  simp only [bind_eq_ok] at h
  obtain ⟨_, _, _, thresholds, _, observations, _, deflated, _, variance, _, blocks, _, sampled, _,
    batch, _, overfit, h⟩ := h
  cases h
  exact {
    single_trial := (brackets_of_checked thresholds).1
    monotone := (brackets_of_checked thresholds).2
    min_observations := (checked_number_ok observations).1
    deflated_pass := (checked_number_ok deflated).1
    sharpe_variance := checked_optional_ok variance
    blocks := by simpa using (checked_number_ok blocks).1
    max_sampled := (checked_number_ok sampled).1
    batch_size := (checked_number_ok batch).1
    overfit_pass := (checked_number_ok overfit).1 }

/-! ## The order of brackets -/

/-- Brackets in the order of their numbers of trials, of which no two have the same. -/
def Ordered (bs : Brackets) : Prop := bs.Pairwise fun a b => a.1 < b.1

theorem mem_set_bracket {bs : Brackets} {k : Int} {x : Float} {b : Int × Float}
    (h : b ∈ setBracket bs k x) : b.1 = k ∨ b ∈ bs := by
  fun_induction setBracket bs k x with
  | case1 => exact .inl (List.mem_singleton.mp h ▸ rfl)
  | case2 l y rest _ =>
    rcases List.mem_cons.mp h with rfl | h
    · exact .inl rfl
    · exact .inr h
  | case3 =>
    rcases List.mem_cons.mp h with rfl | h
    · exact .inl rfl
    · exact .inr (List.mem_cons_of_mem _ h)
  | case4 l y rest _ _ _ _ ih =>
    rcases List.mem_cons.mp h with rfl | h
    · exact .inr (List.mem_cons_self ..)
    · exact (ih h).imp_right (List.mem_cons_of_mem _)

theorem set_bracket_ordered {bs : Brackets} {k : Int} {x : Float} (h : Ordered bs) :
    Ordered (setBracket bs k x) := by
  fun_induction setBracket bs k x with
  | case1 => exact List.pairwise_singleton ..
  | case2 l y rest k x hlt =>
    obtain ⟨hfirst, hrest⟩ := List.pairwise_cons.mp h
    refine List.pairwise_cons.mpr ⟨fun b hb => ?_, h⟩
    rcases List.mem_cons.mp hb with rfl | hb
    · exact hlt
    · exact Int.lt_trans hlt (hfirst b hb)
  | case3 =>
    obtain ⟨hfirst, hrest⟩ := List.pairwise_cons.mp h
    exact List.pairwise_cons.mpr ⟨hfirst, hrest⟩
  | case4 l y rest k x hlt hne ih =>
    obtain ⟨hfirst, hrest⟩ := List.pairwise_cons.mp h
    refine List.pairwise_cons.mpr ⟨fun b hb => ?_, ih hrest⟩
    rcases mem_set_bracket hb with hb | hb
    · dsimp only
      omega
    · exact hfirst b hb

theorem fold_ordered {numbers : List (Int × Float)} {bs : Brackets} (h : Ordered bs) :
    Ordered (numbers.foldl (fun t (k, x) => setBracket t k x) bs) := by
  induction numbers generalizing bs with
  | nil => exact h
  | cons e numbers ih => exact ih (set_bracket_ordered h)

theorem brackets_ordered {v : Value} {bs : Brackets} (h : brackets v = .ok bs) : Ordered bs := by
  unfold brackets at h
  split at h
  · simp only [bind_eq_ok] at h
    obtain ⟨_, _, _, _, h⟩ := h
    split at h
    · cases h
    · split at h
      · cases h
      · cases h
        exact fold_ordered List.Pairwise.nil
  · cases h

theorem ordered_of_entries {entries : Entries Value} {s : StatisticsSettings}
    (h : ofEntries entries = .ok s) : Ordered s.thresholds := by
  unfold ofEntries at h
  simp only [bind_eq_ok] at h
  obtain ⟨_, _, thresholds, hthresholds, h⟩ := h
  have hordered : Ordered thresholds := by
    unfold bracketsOf at hthresholds
    split at hthresholds
    · exact brackets_ordered hthresholds
    · cases hthresholds
      unfold Ordered
      decide
  obtain ⟨_, _, _, _, _, _, _, _, _, _, _, _, _, _, h⟩ := h
  cases h
  exact hordered

end BacktestAudit.StatisticsSettings
