import BacktestAudit.Proofs.Decimal.Doubles
import BacktestAudit.Proofs.Statistics.Exact
import BacktestAudit.Statistics.Overfitting.Degradation
import Mathlib

/-!
Degradation as a count. Numbers that are tied share the mean of the places that they take; the odds of
a rank are at most even, and its logit is not positive, exactly when no more numbers lie below the
winner than above it.
-/
namespace BacktestAudit.Statistics.Overfitting
open BacktestAudit.Decimal
set_option autoImplicit false

section Ranks

variable {α : Type} [Scalar α] {xs : List α} {x : α}

/-- Two numbers are in exactly one of the three orders. -/
def Comparable (x y : α) : Prop :=
  ∃ o : Ordering, Scalar.lt x y = (o == .lt) ∧ Scalar.same x y = (o == .eq) ∧
    Scalar.lt y x = (o == .gt)

def countBelow (xs : List α) (x : α) : ℕ := xs.countP (Scalar.lt · x)

def countLevel (xs : List α) (x : α) : ℕ := xs.countP (Scalar.same · x)

def countAbove (xs : List α) (x : α) : ℕ := xs.countP (Scalar.lt x ·)

/-- The mean of the places, counted from one in ascending order, that a number and those tied with it
take. -/
noncomputable def averageRank (xs : List α) (x : α) : ℝ :=
  (∑ place ∈ Finset.Icc (countBelow xs x + 1) (countBelow xs x + countLevel xs x), (place : ℝ)) /
    countLevel xs x

theorem counts_add (h : ∀ y ∈ xs, Comparable y x) :
    countBelow xs x + countLevel xs x + countAbove xs x = xs.length := by
  unfold countBelow countLevel countAbove
  induction xs with
  | nil => rfl
  | cons y xs ih =>
    obtain ⟨⟨o, hlt, hsame, hgt⟩, hxs⟩ := List.forall_mem_cons.mp h
    have ih := ih hxs
    simp only [List.countP_cons, hlt, hsame, hgt, List.length_cons]
    cases o <;> simp <;> omega

theorem level_pos (hx : x ∈ xs) (h : ∀ y ∈ xs, Comparable y x) : 0 < countLevel xs x := by
  obtain ⟨o, hlt, hsame, hgt⟩ := h x hx
  have ho : o = .eq := by
    cases o with
    | eq => rfl
    | lt => rw [hlt] at hgt; cases hgt
    | gt => rw [hlt] at hgt; cases hgt
  rw [ho] at hsame
  exact List.countP_pos_iff.mpr ⟨x, hx, hsame⟩

theorem sum_of_places (below level : ℕ) :
    2 * ∑ place ∈ Finset.Icc (below + 1) (below + level), (place : ℝ) =
      level * (2 * below + level + 1) := by
  induction level with
  | zero => simp
  | succ level ih =>
    rw [← Nat.add_assoc, Finset.sum_Icc_succ_top (by omega), mul_add, ih]
    push_cast
    ring

theorem doubled_rank_counts (xs : List α) (x : α) :
    doubledRank xs x = 2 * countBelow xs x + countLevel xs x + 1 := by
  unfold doubledRank countBelow countLevel
  rw [List.countP_eq_length_filter, List.countP_eq_length_filter]

theorem average_rank_eq (h : 0 < countLevel xs x) :
    averageRank xs x = countBelow xs x + (countLevel xs x + 1) / 2 := by
  have hlevel : (countLevel xs x : ℝ) ≠ 0 := Nat.cast_ne_zero.mpr h.ne'
  have hsum := sum_of_places (countBelow xs x) (countLevel xs x)
  rw [averageRank, div_eq_iff hlevel]
  linear_combination hsum / 2

theorem doubled_rank_eq (h : 0 < countLevel xs x) : (doubledRank xs x : ℝ) = 2 * averageRank xs x := by
  rw [doubled_rank_counts, average_rank_eq h]
  push_cast
  ring

theorem at_most_even_iff (h : ∀ y ∈ xs, Comparable y x) :
    isAtMostEven (doubledRank xs x) xs.length = true ↔ countBelow xs x ≤ countAbove xs x := by
  unfold isAtMostEven
  rw [decide_eq_true_eq, doubled_rank_counts, ← counts_add h]
  omega

end Ranks

/-! ## Doubles -/

section Doubles

open Float.Model (UnpackedFloat)

theorem compare_swap (a b : UnpackedFloat) : b.compare a = (a.compare b).map Ordering.swap := by
  cases a with
  | notANumber => cases b <;> rfl
  | infinity s =>
    cases b with
    | infinity t => cases s <;> cases t <;> rfl
    | notANumber => cases s <;> rfl
    | zero t => cases s <;> rfl
    | finite t m e => cases s <;> rfl
  | zero s =>
    cases b with
    | infinity t => cases t <;> rfl
    | notANumber => rfl
    | zero t => rfl
    | finite t m e => cases t <;> rfl
  | finite s m e =>
    cases b with
    | infinity t => cases t <;> cases s <;> rfl
    | notANumber => cases s <;> rfl
    | zero t => cases s <;> rfl
    | finite t m' e' =>
      cases s <;> cases t <;>
        simp [UnpackedFloat.compare, Ordering.swap_then, Nat.compare_swap, Int.compare_swap]

theorem compare_of_numbers {a b : UnpackedFloat} (ha : a ≠ .notANumber) (hb : b ≠ .notANumber) :
    ∃ o, a.compare b = some o := by
  cases a with
  | notANumber => exact absurd rfl ha
  | infinity s =>
    cases b with
    | notANumber => exact absurd rfl hb
    | infinity t => exact ⟨_, rfl⟩
    | zero t => cases s <;> exact ⟨_, rfl⟩
    | finite t m e => cases s <;> exact ⟨_, rfl⟩
  | zero s =>
    cases b with
    | notANumber => exact absurd rfl hb
    | infinity t => cases t <;> exact ⟨_, rfl⟩
    | zero t => exact ⟨_, rfl⟩
    | finite t m e => cases t <;> exact ⟨_, rfl⟩
  | finite s m e =>
    cases b with
    | notANumber => exact absurd rfl hb
    | infinity t => cases t <;> cases s <;> exact ⟨_, rfl⟩
    | zero t => cases s <;> exact ⟨_, rfl⟩
    | finite t m' e' => cases s <;> cases t <;> exact ⟨_, rfl⟩

theorem lt_eq_compare (x y : Float) :
    Scalar.lt x y = (x.toModel.unpack.compare y.toModel.unpack == some .lt) := by
  change decide (decide (UnpackedFloat.lt x.toModel.unpack y.toModel.unpack = true) = true) = _
  rw [Bool.decide_eq_true, Bool.decide_eq_true]
  rfl

theorem same_eq_compare (x y : Float) :
    Scalar.same x y = (x.toModel.unpack.compare y.toModel.unpack == some .eq) := rfl

theorem comparable_of_numbers {x y : Float} (hx : Extended.ofFloat x ≠ .nan)
    (hy : Extended.ofFloat y ≠ .nan) : Comparable x y := by
  rw [Ne, Extended.of_float_eq_nan_iff, of_float_eq_nan_iff] at hx hy
  obtain ⟨o, ho⟩ := compare_of_numbers hx hy
  refine ⟨o, ?_, ?_, ?_⟩
  · rw [lt_eq_compare, ho]
    cases o <;> rfl
  · rw [same_eq_compare, ho]
    cases o <;> rfl
  · rw [lt_eq_compare, compare_swap, ho]
    cases o <;> rfl

end Doubles

/-! ## Winners -/

section Winners

variable {α : Type} [Scalar α] {xs : List α} {b : ℕ}

/-- The variants in the half that a split leaves, by their Sharpe ratios. -/
def outsideSharpes (blocks rows : ℕ) (variants : List (BlockSums α)) (half : List ℕ) : List α :=
  variants.map (sharpeOfPart rows (otherWeights (weights blocks half)))

/-- The place of the variant that is the first best in the half of a split. -/
def winnerOf (blocks rows : ℕ) (variants : List (BlockSums α)) (half : List ℕ) : ℕ :=
  firstGreatest (variants.map (sharpeOfPart rows (weights blocks half)))

theorem degraded_count_cons (blocks rows : ℕ) (variants : List (BlockSums α)) (half : List ℕ)
    (halves : List (List ℕ)) :
    degradedCount blocks rows variants (half :: halves) =
      degradedCount blocks rows variants halves +
        if ranksLow (outsideSharpes blocks rows variants half)
          (winnerOf blocks rows variants half) then 1 else 0 :=
  List.countP_cons

/-- A split counts as degraded exactly when no more variants lie below its winner than above it, which
is when the logit of the winner's rank is not positive. What the odds divide by is at least one. -/
theorem degraded_iff_below_le_above (hb : b < xs.length)
    (h : ∀ x ∈ xs, Comparable x (xs.getD b zero)) :
    let winner := xs.getD b zero
    let rank := averageRank xs winner
    doubledRank xs winner = 2 * rank ∧ 1 ≤ xs.length + 1 - rank ∧
    (Real.log (rank / (xs.length + 1 - rank)) ≤ 0 ↔
      countBelow xs winner ≤ countAbove xs winner) ∧
    (ranksLow xs b = true ↔ countBelow xs winner ≤ countAbove xs winner) ∧
    ∀ blocks rows variants half halves, outsideSharpes blocks rows variants half = xs →
      winnerOf blocks rows variants half = b →
      degradedCount blocks rows variants (half :: halves) =
        degradedCount blocks rows variants halves +
          if countBelow xs winner ≤ countAbove xs winner then 1 else 0 := by
  intro winner rank
  have hwinner : winner ∈ xs := by
    have heq : winner = xs[b] := by
      simp only [winner, List.getD_eq_getElem?_getD, List.getElem?_eq_getElem hb, Option.getD_some]
    rw [heq]
    exact List.getElem_mem hb
  have hlevel : (1 : ℝ) ≤ countLevel xs winner := by exact_mod_cast level_pos hwinner h
  have hrank : rank = countBelow xs winner + (countLevel xs winner + 1) / 2 :=
    average_rank_eq (level_pos hwinner h)
  have hrest : xs.length + 1 - rank = countAbove xs winner + (countLevel xs winner + 1) / 2 := by
    rw [hrank, ← counts_add h]
    push_cast
    ring
  have hbelow : (0 : ℝ) ≤ countBelow xs winner := Nat.cast_nonneg _
  have habove : (0 : ℝ) ≤ countAbove xs winner := Nat.cast_nonneg _
  have hlow : ranksLow xs b = true ↔ countBelow xs winner ≤ countAbove xs winner :=
    at_most_even_iff h
  refine ⟨doubled_rank_eq (level_pos hwinner h), by linarith, ?_, hlow, ?_⟩
  · rw [hrest, Real.log_nonpos_iff (by rw [hrank]; positivity), div_le_one (by linarith), hrank,
      add_le_add_iff_right, Nat.cast_le]
  · rintro blocks rows variants half halves rfl rfl
    rw [degraded_count_cons]
    simp only [hlow]

/-- Four variants, with the winner and another one tied in the middle: it lies at the median, and the
odds of its rank are even. -/
theorem tied_middle_below_le_above :
    let sharpes : List Float := [0.5, 2, 0.5, -1]
    (∀ x ∈ sharpes, Comparable x (sharpes.getD 2 zero)) ∧ countBelow sharpes 0.5 = 1 ∧
      countAbove sharpes 0.5 = 1 ∧ ranksLow sharpes 2 = true := by
  intro sharpes
  have hnumbers : ∀ x ∈ sharpes, Extended.ofFloat x ≠ .nan := by decide +kernel
  have h : ∀ x ∈ sharpes, Comparable x (sharpes.getD 2 zero) := fun x hx =>
    comparable_of_numbers (hnumbers x hx) (hnumbers 0.5 (by simp [sharpes]))
  have hcounts : countBelow sharpes 0.5 = 1 ∧ countAbove sharpes 0.5 = 1 := by decide +kernel
  have hwinner : sharpes.getD 2 zero = 0.5 := rfl
  obtain ⟨-, -, -, hlow, -⟩ := degraded_iff_below_le_above (by decide) h
  rw [hwinner, hcounts.1, hcounts.2] at hlow
  exact ⟨h, hcounts.1, hcounts.2, hlow.mpr (Nat.le_refl 1)⟩

end Winners

end BacktestAudit.Statistics.Overfitting
