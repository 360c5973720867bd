import BacktestAudit.Proofs.Statistics.Exact
import BacktestAudit.Proofs.Statistics.Estimated
import BacktestAudit.Proofs.Statistics.Kept
import Mathlib.Algebra.Group.Even

/-!
Halves of the time in exact arithmetic. The sums of the blocks of a half, with their weights, tell of
the returns in the half what visiting them one by one tells: their mean, their variance and the ratio
of the two.
-/
namespace BacktestAudit.Statistics.Overfitting
open BacktestAudit.Statistics.Exact
set_option autoImplicit false

/-! ## Sums of blocks -/

theorem running_sum_eq (xs : List ℝ) : runningSum xs = xs.sum := by
  cases xs with
  | nil => exact Nat.cast_zero
  | cons x xs => rw [runningSum, plain_sum_eq, List.sum_cons]

noncomputable def weightsOf (blocks : ℕ) (p : ℕ → Bool) : List ℝ :=
  (List.range blocks).map fun b => if p b then 1 else 0

theorem weights_eq (blocks : ℕ) (half : List ℕ) :
    weights blocks half = weightsOf blocks fun b => decide (b ∈ half) := by
  unfold weights weightsOf
  refine List.map_congr_left fun b _ => ?_
  split <;> simp_all

theorem other_weights_eq (blocks : ℕ) (half : List ℕ) :
    otherWeights (weights blocks half) = weightsOf blocks fun b => decide (b ∉ half) := by
  unfold otherWeights
  rw [weights_eq, weightsOf, weightsOf, List.map_map]
  refine List.map_congr_left fun b _ => ?_
  by_cases h : b ∈ half <;> simp [h]

theorem weighted_sum_eq (p : ℕ → Bool) (xs : List ℝ) :
    weightedSum (weightsOf xs.length p) xs = (kept p xs).sum := by
  unfold weightedSum weightsOf
  rw [plain_sum_eq, zero, of_nat_eq, Nat.cast_zero, zero_add]
  induction xs generalizing p with
  | nil => rfl
  | cons x xs ih =>
    rw [List.length_cons, List.range_succ_eq_map, List.map_cons, List.map_map,
      List.zipWith_cons_cons, List.sum_cons, kept_cons, List.sum_append, ← ih]
    cases p 0 <;> simp [Function.comp_def]

theorem weighted_sum_of_parts (p : ℕ → Bool) (parts : List (List ℝ)) :
    weightedSum (weightsOf parts.length p) (parts.map runningSum) = (kept p parts).flatten.sum := by
  have h := weighted_sum_eq p (parts.map List.sum)
  rw [List.length_map, kept_map] at h
  rw [funext running_sum_eq, h, List.sum_flatten]

/-- The returns of the blocks kept, out of blocks of one length. -/
def returnsIn {β : Type} (p : ℕ → Bool) (length : ℕ) (xs : List β) : List β :=
  kept (fun i => p (i / length)) xs

variable {blocks length : ℕ}

theorem returns_in_eq {β : Type} (p : ℕ → Bool) {xs : List β} (hpos : 0 < length)
    (h : xs.length = blocks * length) :
    returnsIn p length xs = (kept p (pieces length blocks xs)).flatten :=
  (kept_pieces_flatten p hpos h).symm

theorem returns_in_length {β : Type} (p : ℕ → Bool) {xs : List β} (hpos : 0 < length)
    (h : xs.length = blocks * length) :
    (returnsIn p length xs).length = (List.range blocks).countP p * length := by
  rw [returns_in_eq p hpos h, List.length_flatten, List.sum_eq_card_nsmul _ length, List.length_map,
    kept_length, pieces_length, smul_eq_mul]
  intro n hn
  obtain ⟨part, hpart, rfl⟩ := List.mem_map.mp hn
  exact length_of_mem_pieces h ((kept_sublist p _).subset hpart)

variable {xs : List ℝ}

theorem weighted_sum_of_sums (p : ℕ → Bool) (hpos : 0 < length) (hblocks : 0 < blocks)
    (h : xs.length = blocks * length) :
    weightedSum (weightsOf blocks p) (BlockSums.ofReturns blocks xs).sums =
      (returnsIn p length xs).sum := by
  have hparts := weighted_sum_of_parts p (pieces length blocks xs)
  rw [pieces_length, kept_pieces_flatten p hpos h] at hparts
  unfold BlockSums.ofReturns
  rw [h, Nat.mul_div_cancel_left _ hblocks]
  exact hparts

theorem weighted_sum_of_squares (p : ℕ → Bool) (hpos : 0 < length) (hblocks : 0 < blocks)
    (h : xs.length = blocks * length) :
    weightedSum (weightsOf blocks p) (BlockSums.ofReturns blocks xs).squares =
      ((returnsIn p length xs).map (· ^ 2)).sum := by
  have hsquares := weighted_sum_of_sums p hpos hblocks ((List.length_map square).trans h)
  rw [returnsIn, kept_map] at hsquares
  rw [returnsIn, ← funext square_eq, ← hsquares]
  unfold BlockSums.ofReturns
  simp only [List.length_map, pieces_map, List.map_map]
  rfl

/-! ## Moments -/

/-- What weighted sums of a variant tell of a sample of its returns: size, mean, variance and ratio
are those of the sample, nothing is divided by zero, and clamping the variance changes nothing. -/
structure Tells (n : ℕ) (ws : List ℝ) (v : BlockSums ℝ) (sample : List ℝ) : Prop where
  size : sample.length = n
  divisors : (n : ℝ) ≠ 0 ∧ ((n - 1 : ℕ) : ℝ) ≠ 0
  mean : meanOfSum n (weightedSum ws v.sums) = sample.sum / n
  variance : varianceOfSums n (weightedSum ws v.sums) (weightedSum ws v.squares) =
    (sample.map fun x => (x - sample.sum / n) ^ 2).sum / (n - 1 : ℕ)
  unclamped : varianceOfSums n (weightedSum ws v.sums) (weightedSum ws v.squares) =
    (weightedSum ws v.squares - n * meanOfSum n (weightedSum ws v.sums) ^ 2) / (n - 1 : ℕ)
  ratio : sharpeOfPart n ws v = sharpe sample
  flat : Statistics.variance 1 sample = 0 → sharpeOfPart n ws v = 0

theorem clamp_negative_of_nonneg {x : ℝ} (h : 0 ≤ x) : clampNegative x = x := by
  unfold clampNegative zero
  rw [lt_eq, of_nat_eq, Nat.cast_zero, if_neg (by simpa using h)]

theorem tells_of_sums {n : ℕ} {ws : List ℝ} {v : BlockSums ℝ} {sample : List ℝ} (hn : 2 ≤ n)
    (hsize : sample.length = n) (hsum : weightedSum ws v.sums = sample.sum)
    (hsquares : weightedSum ws v.squares = (sample.map (· ^ 2)).sum) : Tells n ws v sample := by
  have hmean : meanOfSum n (weightedSum ws v.sums) = Statistics.mean sample := by
    rw [meanOfSum, hsum, mean_eq, hsize, of_nat_eq]
  have hraw : (weightedSum ws v.squares - n * meanOfSum n (weightedSum ws v.sums) ^ 2) /
      (n - 1 : ℕ) = Statistics.variance 1 sample := by
    rw [hsquares, hmean, variance_eq, sum_of_squared_distances, hsize]
  have hvariance : varianceOfSums n (weightedSum ws v.sums) (weightedSum ws v.squares) =
      Statistics.variance 1 sample := by
    unfold varianceOfSums
    rw [square_eq, of_nat_eq, of_nat_eq, hraw, clamp_negative_of_nonneg (variance_nonneg 1 sample)]
  have hratio : sharpeOfPart n ws v = sharpe sample := by
    unfold sharpeOfPart sharpeOfSums
    dsimp only
    rw [hvariance, hmean, sharpe_eq, sqrt_eq, zero, lt_eq, of_nat_eq, Nat.cast_zero]
    simp only [decide_eq_true_eq, Real.sqrt_pos]
    rcases (variance_nonneg 1 sample).eq_or_lt with hzero | hpos
    · rw [if_neg (by simp [← hzero]), if_pos hzero.symm]
    · rw [if_pos hpos, if_neg hpos.ne']
  have hsample : sample.sum / n = Statistics.mean sample := by rw [mean_eq, hsize]
  exact {
    size := hsize
    divisors := ⟨Nat.cast_ne_zero.mpr (by omega), Nat.cast_ne_zero.mpr (by omega)⟩
    mean := hmean.trans hsample.symm
    variance := by rw [hvariance, variance_eq, hsize, hsample]
    unclamped := by rw [hraw, hvariance]
    ratio := hratio
    flat := fun hzero => by rw [hratio, sharpe_eq, if_pos hzero] }

/-! ## Halves -/

theorem count_of_half {half : List ℕ} (hnodup : half.Nodup) (hbound : ∀ b ∈ half, b < blocks) :
    (List.range blocks).countP (fun b => decide (b ∈ half)) = half.length := by
  rw [List.countP_eq_length_filter]
  refine List.Perm.length_eq ?_
  rw [List.perm_ext_iff_of_nodup (List.nodup_range.filter _) hnodup]
  intro b
  simpa using hbound b

theorem count_of_others {half : List ℕ} (hnodup : half.Nodup) (hbound : ∀ b ∈ half, b < blocks) :
    (List.range blocks).countP (fun b => decide (b ∉ half)) = blocks - half.length := by
  have h := List.length_eq_countP_add_countP (fun b => decide (b ∈ half)) (l := List.range blocks)
  rw [count_of_half hnodup hbound, List.length_range] at h
  simp only [decide_not, Bool.decide_eq_true] at h ⊢
  omega

/-- The sums of blocks of one length tell of a variant what its returns in the blocks kept tell. -/
theorem blocks_tell {rows : List (List ℝ)} {n : ℕ} (p : ℕ → Bool) (j : ℕ)
    (h : rows.length = blocks * length) (hn : 2 ≤ n)
    (hcount : (List.range blocks).countP p * length = n) :
    Tells n (weightsOf blocks p) (BlockSums.ofReturns blocks (column j rows))
      (column j (returnsIn p length rows)) := by
  have hpos : 0 < length := Nat.pos_of_ne_zero fun hzero => by simp [hzero] at hcount; omega
  have hblocks : 0 < blocks := Nat.pos_of_ne_zero fun hzero => by simp [hzero] at hcount; omega
  have hcolumn : (column j rows).length = blocks * length := by rw [column, List.length_map, h]
  have hkept : returnsIn p length (column j rows) = column j (returnsIn p length rows) :=
    kept_map _ _ rows
  refine tells_of_sums hn ?_ ?_ ?_
  · rw [column, List.length_map, returns_in_length p hpos h, hcount]
  · rw [weighted_sum_of_sums p hpos hblocks hcolumn, hkept]
  · rw [weighted_sum_of_squares p hpos hblocks hcolumn, hkept]

/-- In exact arithmetic, the sums of the blocks of a half tell of each variant what its returns in the
half tell, and those of the other blocks what its other returns do. -/
theorem halves_tell_returns {rows : List (List ℝ)} {half : List ℕ} (heven : Even blocks)
    (hblocks : 2 ≤ blocks) (hdvd : blocks ∣ rows.length) (hrows : 4 ≤ rows.length)
    (hnodup : half.Nodup) (hlength : half.length = blocks / 2) (hbound : ∀ b ∈ half, b < blocks)
    (j : ℕ) :
    Tells (rows.length / 2) (weights blocks half) (BlockSums.ofReturns blocks (column j rows))
        (column j (returnsIn (fun b => decide (b ∈ half)) (rows.length / blocks) rows)) ∧
      Tells (rows.length / 2) (otherWeights (weights blocks half))
        (BlockSums.ofReturns blocks (column j rows))
        (column j (returnsIn (fun b => decide (b ∉ half)) (rows.length / blocks) rows)) := by
  obtain ⟨k, rfl⟩ := heven
  obtain ⟨length, h⟩ := hdvd
  have hk : (k + k) / 2 = k := by omega
  have hdiv : rows.length / (k + k) = length := by rw [h, Nat.mul_div_cancel_left _ (by omega)]
  have hhalf : k * length = rows.length / 2 := by rw [h, ← Nat.two_mul, Nat.mul_assoc]; omega
  rw [other_weights_eq, weights_eq, hdiv]
  constructor
  · refine blocks_tell _ j h (by omega) ?_
    rw [count_of_half hnodup hbound, hlength, hk, hhalf]
  · refine blocks_tell _ j h (by omega) ?_
    rw [count_of_others hnodup hbound, hlength, hk, Nat.add_sub_cancel, hhalf]

/-- Four blocks of two rows, the outer ones against the inner ones. -/
theorem outer_blocks_tell_returns :
    let rows : List (List ℝ) :=
      [[1, 5], [2, 5], [3, 5], [5, 5], [8, 5], [13, 5], [21, 5], [34, 5]]
    Tells 4 (weights 4 [0, 3]) (BlockSums.ofReturns 4 (column 0 rows)) [1, 2, 21, 34] ∧
      Tells 4 (otherWeights (weights 4 [0, 3])) (BlockSums.ofReturns 4 (column 1 rows))
        [5, 5, 5, 5] := by
  intro rows
  have h (j : ℕ) := @halves_tell_returns 4 rows [0, 3] (by decide) (by decide) ⟨2, rfl⟩ (by decide)
    (by decide) rfl (by decide) j
  have houter : column 0 (returnsIn (fun b => decide (b ∈ [0, 3])) (rows.length / 4) rows) =
      [1, 2, 21, 34] := by
    simp [column, returnsIn, kept, rows]
  have hinner : column 1 (returnsIn (fun b => decide (b ∉ [0, 3])) (rows.length / 4) rows) =
      [5, 5, 5, 5] := by
    simp [column, returnsIn, kept, rows]
  have hn : rows.length / 2 = 4 := by decide
  exact ⟨houter ▸ hn ▸ (h 0).1, hinner ▸ hn ▸ (h 1).2⟩

end BacktestAudit.Statistics.Overfitting
