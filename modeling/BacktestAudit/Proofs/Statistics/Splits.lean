import BacktestAudit.Proofs.Decimal.Range
import BacktestAudit.Proofs.Settings.Checked
import BacktestAudit.Proofs.Statistics.Batched
import Mathlib.Data.Nat.Choose.Basic

/-!
Which plans can be carried out: those whose numbers of blocks, of sampled splits and of splits in a
batch are whole, and whose seed is one where splits are sampled. There is always a split then.
-/
namespace BacktestAudit.Statistics.Overfitting
open BacktestAudit.Data BacktestAudit.Data.Outcome BacktestAudit.Decimal StatisticsSettings
set_option autoImplicit false

/-! ## How many splits there are -/

theorem binomial_eq_choose {n k : ℕ} (h : k ≤ n) : binomial n k = n.choose k := by
  unfold binomial
  rw [if_neg (by omega)]
  clear h
  induction k with
  | zero => simp
  | succ k ih =>
    rw [List.range_succ, List.foldl_append, ih, List.foldl_cons, List.foldl_nil,
      ← Nat.choose_succ_right_eq, Nat.mul_div_cancel _ (Nat.succ_pos k)]

theorem combinations_ne_nil {β : Type} {k : ℕ} {xs : List β} (h : k ≤ xs.length) :
    combinations k xs ≠ [] := by
  induction xs generalizing k with
  | nil =>
    obtain rfl : k = 0 := by simpa using h
    simp [combinations]
  | cons x xs ih =>
    cases k with
    | zero => simp [combinations]
    | succ k =>
      have hk : combinations k xs ≠ [] := ih (by simpa using h)
      simp [combinations, hk]

theorem sampled_length (n half count : ℕ) (g : Generator) :
    (sampled n half count g).length = count := by
  induction count generalizing g with
  | zero => rfl
  | succ count ih => rw [sampled, List.length_cons, ih]

/-! ## Numbers that are given -/

@[simp] theorem number_of_value (n : Number) : n.toValue.number? = some n := by cases n <;> rfl

theorem need_eq_ok {β : Type} {x? : Option β} {x : β} : SplitPlan.need x? = .ok x ↔ x? = some x := by
  cases x? <;> simp [SplitPlan.need]

theorem nat_of_eq_ok {n : ℤ} {k : ℕ} : SplitPlan.natOf n = .ok k ↔ n = k := by
  unfold SplitPlan.natOf
  split
  · exact iff_of_false nofun (by omega)
  · simp only [Except.ok.injEq]
    omega

/-! ## Plans -/

/-- A plan whose splits of a number of blocks can be sampled: it has a seed, and a whole number of
splits that fit into an array. -/
structure CanSample (p : SplitPlan) (blocks : ℕ) : Prop where
  seed : ∃ words, seedOf p.seed = .ok words
  size : ∃ count, p.sampleSize (binomial blocks (blocks / 2)) = .ok count ∧
    SplitPlan.isAddressable count (blocks / 2) = true

theorem is_exact_eq_ok {p : SplitPlan} {exact_ : Bool} : p.isExact = .ok exact_ ↔
    ∃ most, p.maxExact.number? = some most ∧ p.blocks.le most = exact_ := by
  unfold SplitPlan.isExact
  simp only [bind_eq_ok, need_eq_ok]
  exact exists_congr fun most => and_congr_right fun _ => ⟨Except.ok.inj, congrArg Except.ok⟩

/-- The splits of a plan: all of them up to a number of blocks, beyond it a sample. -/
theorem splits_eq_ok {p : SplitPlan} {splits : Splits} : p.splits = .ok splits ↔
    ∃ most, p.maxExact.number? = some most ∧ ∃ blocks : ℕ, p.blocks.toInt? = some (blocks : ℤ) ∧
      ((p.blocks.le most = true ∧
          splits = ⟨combinations (blocks / 2) (List.range blocks), true⟩) ∨
        p.blocks.le most = false ∧ ∃ words, seedOf p.seed = .ok words ∧
          ∃ count, p.sampleSize (binomial blocks (blocks / 2)) = .ok count ∧
            SplitPlan.isAddressable count (blocks / 2) = true ∧
            splits = ⟨sampled blocks (blocks / 2) count (.ofWords words), false⟩) := by
  unfold SplitPlan.splits
  rw [bind_eq_ok]
  constructor
  · rintro ⟨exact_, hexact, h⟩
    obtain ⟨most, hmost, rfl⟩ := is_exact_eq_ok.mp hexact
    refine ⟨most, hmost, ?_⟩
    cases hle : p.blocks.le most with
    | true =>
      rw [hle, if_pos rfl] at h
      simp only [bind_eq_ok, need_eq_ok, nat_of_eq_ok] at h
      obtain ⟨_, hblocks, blocks, rfl, h⟩ := h
      cases h
      exact ⟨blocks, hblocks, .inl ⟨rfl, rfl⟩⟩
    | false =>
      rw [hle, if_neg Bool.false_ne_true] at h
      simp only [bind_eq_ok, need_eq_ok, nat_of_eq_ok] at h
      obtain ⟨words, hwords, _, hblocks, blocks, rfl, count, hcount, h⟩ := h
      cases haddressable : SplitPlan.isAddressable count (blocks / 2) with
      | false =>
        rw [haddressable] at h
        cases h
      | true =>
        rw [haddressable] at h
        cases h
        exact ⟨blocks, hblocks, .inr ⟨rfl, words, hwords, count, hcount, haddressable, rfl⟩⟩
  · rintro ⟨most, hmost, blocks, hblocks, ⟨hle, rfl⟩ | ⟨hle, words, hwords, count, hcount,
      haddressable, rfl⟩⟩
    · refine ⟨true, is_exact_eq_ok.mpr ⟨most, hmost, hle⟩, ?_⟩
      rw [if_pos rfl]
      simp only [bind_eq_ok, need_eq_ok, nat_of_eq_ok]
      exact ⟨blocks, hblocks, blocks, rfl, rfl⟩
    · refine ⟨false, is_exact_eq_ok.mpr ⟨most, hmost, hle⟩, ?_⟩
      rw [if_neg Bool.false_ne_true]
      simp only [bind_eq_ok, need_eq_ok, nat_of_eq_ok]
      refine ⟨words, hwords, blocks, hblocks, blocks, rfl, count, hcount, ?_⟩
      rw [haddressable]
      rfl

/-- Splits can be made of a whole number of blocks, if the bound up to which all of them are taken is a
number. -/
theorem splits_succeeds_iff {p : SplitPlan} : (∃ splits, p.splits = .ok splits) ↔
    ∃ most, p.maxExact.number? = some most ∧ ∃ blocks : ℕ, p.blocks.toInt? = some (blocks : ℤ) ∧
      (p.blocks.le most = false → CanSample p blocks) := by
  simp only [splits_eq_ok]
  constructor
  · rintro ⟨splits, most, hmost, blocks, hblocks, h⟩
    refine ⟨most, hmost, blocks, hblocks, fun hle => ?_⟩
    rcases h with ⟨hexact, -⟩ | ⟨-, words, hwords, count, hcount, haddressable, -⟩
    · rw [hle] at hexact
      cases hexact
    · exact ⟨⟨words, hwords⟩, count, hcount, haddressable⟩
  · rintro ⟨most, hmost, blocks, hblocks, h⟩
    cases hle : p.blocks.le most with
    | true => exact ⟨_, most, hmost, blocks, hblocks, .inl ⟨hle, rfl⟩⟩
    | false =>
      obtain ⟨⟨words, hwords⟩, count, hcount, haddressable⟩ := h hle
      exact ⟨_, most, hmost, blocks, hblocks,
        .inr ⟨hle, words, hwords, count, hcount, haddressable, rfl⟩⟩

theorem exhaustive_of_splits {p : SplitPlan} {splits : Splits} {most : Number}
    (h : p.splits = .ok splits) (hmost : p.maxExact.number? = some most) :
    splits.exhaustive = p.blocks.le most := by
  obtain ⟨found, hfound, _, -, ⟨hle, rfl⟩ | ⟨hle, _, -, _, -, -, rfl⟩⟩ := splits_eq_ok.mp h
  · rw [hmost, Option.some.injEq] at hfound
    rw [hfound, hle]
  · rw [hmost, Option.some.injEq] at hfound
    rw [hfound, hle]

/-! ## There are splits -/

theorem one_le_of_at_least {n : Number} {k : ℤ} (h : isAtLeast 1 n = true)
    (hk : n.toInt? = some k) : 1 ≤ k := by
  simp only [isAtLeast, Number.lt, Bool.not_eq_true'] at h
  cases n with
  | truth b =>
    cases b with
    | false => cases h
    | true =>
      cases hk
      exact le_refl 1
  | int n =>
    cases hk
    simpa [Number.toExtended, Extended.ofInt, Extended.lt] using h
  | float x => cases hk

theorem sample_size_pos {p : SplitPlan} {most : Number} {all count : ℕ}
    (hmost : p.maxSampled.number? = some most) (hleast : isAtLeast 1 most = true) (hall : 0 < all)
    (h : p.sampleSize all = .ok count) : 0 < count := by
  unfold SplitPlan.sampleSize at h
  obtain ⟨found, hfound, h⟩ := bind_eq_ok.mp h
  rw [need_eq_ok, hmost, Option.some.injEq] at hfound
  subst hfound
  split at h
  · cases h
    exact hall
  · simp only [bind_eq_ok, need_eq_ok, nat_of_eq_ok] at h
    obtain ⟨k, hk, rfl⟩ := h
    have hpos := one_le_of_at_least hleast hk
    omega

theorem halves_ne_nil {p : SplitPlan} {splits : Splits} {most : Number}
    (hmost : p.maxSampled.number? = some most) (hleast : isAtLeast 1 most = true)
    (h : p.splits = .ok splits) : splits.halves ≠ [] := by
  obtain ⟨_, -, blocks, -, ⟨-, rfl⟩ | ⟨-, words, -, count, hcount, -, rfl⟩⟩ := splits_eq_ok.mp h
  · exact combinations_ne_nil (by rw [List.length_range]; omega)
  · have hall : 0 < binomial blocks (blocks / 2) := by
      rw [binomial_eq_choose (by omega)]
      exact Nat.choose_pos (by omega)
    have hcount := sample_size_pos hmost hleast hall hcount
    rw [← List.length_pos_iff, sampled_length]
    exact hcount

/-! ## Batches and workers -/

theorem batches_of_succeeds_iff {β : Type} {size : Number} {xs : List β}
    (hleast : isAtLeast 1 size = true) : (∃ parts, batchesOf size.toValue xs = .ok parts) ↔
      ∃ n, size.toInt? = some n := by
  unfold batchesOf
  rw [number_of_value, Option.bind_some]
  simp only [bind_eq_ok, need_eq_ok]
  constructor
  · rintro ⟨_, n, hn, -⟩
    exact ⟨n, hn⟩
  · rintro ⟨n, hn⟩
    have hpos := one_le_of_at_least hleast hn
    refine ⟨batches n.toNat xs, n, hn, ?_⟩
    rw [if_neg (by omega)]
    rfl

theorem den_pos {n : Number} {num : ℤ} {den : ℕ} (h : n.toExtended = .ratio num den) : 0 < den := by
  cases n with
  | truth b =>
    cases h
    exact Nat.one_pos
  | int k =>
    cases h
    exact Nat.one_pos
  | float x => exact ratio_pos h

theorem zero_lt_iff {n : Number} (h : isAtLeast 1 n = true) :
    (Number.int 0).lt n = true ↔ n.toExtended ≠ .nan := by
  have hpos := @den_pos n
  rw [isAtLeast, Bool.not_eq_true'] at h
  unfold Number.lt at h ⊢
  generalize n.toExtended = x at h hpos ⊢
  cases x with
  | nan => exact iff_of_false Bool.false_ne_true fun hne => hne rfl
  | infinite negative =>
    cases negative with
    | false => exact iff_of_true rfl Extended.noConfusion
    | true => cases h
  | ratio num den =>
    have hden := hpos rfl
    simp only [Extended.lt, Number.toExtended, Extended.ofInt, decide_eq_false_iff_not] at h ⊢
    exact iff_of_true (decide_eq_true (by omega)) Extended.noConfusion

/-- Workers that are at least one start, unless they are no number and several batches need them. -/
theorem check_workers_iff {workers : Option Number} {batchCount : ℕ}
    (h : ∀ w ∈ workers, isAtLeast 1 w = true) :
    checkWorkers (workers.map Number.toValue) batchCount = .ok () ↔
      (batchCount ≠ 1 → ∀ w ∈ workers, w.toExtended ≠ .nan) := by
  cases workers with
  | none => exact iff_of_true rfl fun _ => nofun
  | some w =>
    have hleast := h w rfl
    by_cases hone : batchCount = 1
    · refine iff_of_true ?_ fun hne => absurd hone hne
      simp only [Option.map_some, checkWorkers, if_pos hone]
      rfl
    · have hwork : checkWorkers (some w.toValue) batchCount =
          if (!(Number.int 0).lt w) = true then .error .wrongValue else .ok () := by
        simp only [checkWorkers, if_neg hone, number_of_value]
        rfl
      rw [Option.map_some, hwork]
      simp only [Option.mem_some_iff, forall_eq', ← zero_lt_iff hleast]
      cases (Number.int 0).lt w <;> simp [hone]

theorem batch_count_ne_one_iff {β : Type} {size : ℕ} {xs : List β} (hsize : 0 < size)
    (hne : xs ≠ []) : (batches size xs).length ≠ 1 ↔ size < xs.length := by
  have hpos := List.length_pos_iff.mpr hne
  have hzero := (lt_batches_length_iff hsize xs 0).mpr (by omega)
  have hone := lt_batches_length_iff hsize xs 1
  rw [Nat.one_mul] at hone
  omega

end BacktestAudit.Statistics.Overfitting
