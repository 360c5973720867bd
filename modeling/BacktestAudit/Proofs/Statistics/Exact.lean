import Mathlib.Algebra.BigOperators.Group.List.Basic
import Mathlib.Analysis.Real.Sqrt
import BacktestAudit.Statistics.Sample

/-!
Statistics in exact arithmetic: on real numbers all orders of adding up come to the same sum, so that
means, variances and ratios are those of the textbooks.
-/
namespace BacktestAudit.Statistics
set_option autoImplicit false

noncomputable instance : Scalar ℝ where
  ofNat n := n
  sqrt := Real.sqrt
  lt a b := decide (a < b)
  same a b := decide (a = b)

namespace Exact

@[simp] theorem of_nat_eq (n : ℕ) : (Scalar.ofNat n : ℝ) = n := rfl
@[simp] theorem sqrt_eq (x : ℝ) : Scalar.sqrt x = √x := rfl
@[simp] theorem lt_eq (a b : ℝ) : Scalar.lt a b = decide (a < b) := rfl
@[simp] theorem same_eq (a b : ℝ) : Scalar.same a b = decide (a = b) := rfl

/-! ## Sums -/

theorem plain_sum_eq (start : ℝ) (xs : List ℝ) : plainSum start xs = start + xs.sum := by
  unfold plainSum
  induction xs generalizing start with
  | nil => simp
  | cons x xs ih => rw [List.foldl_cons, ih, List.sum_cons]; exact add_assoc ..

theorem join_lanes_eq (xs : List ℝ) : joinLanes xs = xs.sum := by
  unfold joinLanes
  split
  · simp only [List.sum_cons, List.sum_nil]
    ring
  · simp [plain_sum_eq]

theorem lanes_sum {row : List ℝ} {rows : List (List ℝ)} (h : ∀ r ∈ rows, r.length = row.length) :
    (rows.foldl (List.zipWith (· + ·)) row).sum = row.sum + rows.flatten.sum := by
  induction rows generalizing row with
  | nil => simp
  | cons r rows ih =>
    rw [List.forall_mem_cons] at h
    rw [List.foldl_cons, ih (by simpa [h.1] using h.2), List.flatten_cons, List.sum_append,
      ← add_assoc]
    congr 1
    exact (List.sum_add_sum_eq_sum_zipWith_of_length_eq _ _ h.1.symm).symm

theorem cut_in_eights {α : Type} (xs : List α) (count : ℕ) :
    ((List.range count).map fun i => (xs.drop (8 * i)).take 8).flatten = xs.take (8 * count) := by
  induction count with
  | zero => simp
  | succ count ih =>
    rw [List.range_succ, List.map_append, List.flatten_append, ih, Nat.mul_succ, List.take_add]
    simp

theorem length_of_mem_rows_of_eight {xs row : List ℝ} (h : row ∈ rowsOfEight xs) :
    row.length = 8 := by
  unfold rowsOfEight at h
  obtain ⟨i, hi, rfl⟩ := List.mem_map.mp h
  rw [List.mem_range] at hi
  rw [List.length_take, List.length_drop]
  omega

theorem block_sum_eq (xs : List ℝ) : blockSum xs = xs.sum := by
  have hcut : (rowsOfEight xs).flatten = xs.take (8 * (xs.length / 8)) := cut_in_eights xs _
  have hlength : ∀ row ∈ rowsOfEight xs, row.length = 8 := fun _ => length_of_mem_rows_of_eight
  unfold blockSum
  dsimp only
  rw [plain_sum_eq, join_lanes_eq, ← List.sum_take_add_sum_drop xs (8 * (xs.length / 8)), ← hcut]
  congr 1
  split
  · next row rows hrows =>
    rw [hrows, List.forall_mem_cons] at hlength
    rw [hrows, List.flatten_cons, List.sum_append]
    exact lanes_sum fun r hr => (hlength.2 r hr).trans hlength.1.symm
  · next hrows => rw [hrows, List.flatten_nil]

theorem pairwise_sum_eq (xs : List ℝ) : pairwiseSum xs = xs.sum := by
  fun_induction pairwiseSum xs with
  | case1 xs _ => simp [plain_sum_eq]
  | case2 xs _ _ => exact block_sum_eq xs
  | case3 xs _ _ half ih₁ ih₂ =>
    rw [ih₁, ih₂]
    exact List.sum_take_add_sum_drop ..

/-! ## Means and variances -/

theorem mean_eq (xs : List ℝ) : mean xs = xs.sum / xs.length := by
  rw [mean, pairwise_sum_eq, of_nat_eq]

theorem square_eq (x : ℝ) : square x = x ^ 2 := (sq x).symm

theorem variance_eq (freedom : ℕ) (xs : List ℝ) :
    variance freedom xs = (xs.map fun x => (x - mean xs) ^ 2).sum / (xs.length - freedom : ℕ) := by
  rw [variance, deviations, pairwise_sum_eq, List.map_map, of_nat_eq]
  congr 3
  funext x
  exact square_eq _

theorem variance_nonneg (freedom : ℕ) (xs : List ℝ) : 0 ≤ variance freedom xs := by
  rw [variance_eq]
  refine div_nonneg (List.sum_nonneg ?_) (Nat.cast_nonneg _)
  rintro _ h
  obtain ⟨x, -, rfl⟩ := List.mem_map.mp h
  exact sq_nonneg _

theorem sum_of_squared_distances (xs : List ℝ) :
    (xs.map fun x => (x - mean xs) ^ 2).sum =
      (xs.map (· ^ 2)).sum - xs.length * mean xs ^ 2 := by
  have hsum : xs.sum = xs.length * mean xs := by
    rw [mean_eq]
    by_cases hnil : xs = []
    · simp [hnil]
    · rw [mul_div_cancel₀]
      exact Nat.cast_ne_zero.mpr (List.length_pos_iff.mpr hnil).ne'
  have hexpand : ∀ m : ℝ, (xs.map fun x => (x - m) ^ 2).sum =
      (xs.map (· ^ 2)).sum - 2 * m * xs.sum + xs.length * m ^ 2 := by
    intro m
    clear hsum
    induction xs with
    | nil => simp
    | cons x xs ih =>
      simp only [List.map_cons, List.sum_cons, List.length_cons, Nat.cast_succ, ih]
      ring
  rw [hexpand, hsum]
  ring

theorem sharpe_eq (xs : List ℝ) :
    sharpe xs = if variance 1 xs = 0 then 0 else mean xs / √(variance 1 xs) := by
  unfold sharpe isZero deviation
  dsimp only
  rw [sqrt_eq, same_eq, of_nat_eq, Nat.cast_zero]
  simp only [decide_eq_true_eq, Real.sqrt_eq_zero (variance_nonneg 1 xs)]

end Exact
end BacktestAudit.Statistics
