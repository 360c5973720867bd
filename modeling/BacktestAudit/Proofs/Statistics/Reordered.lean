import BacktestAudit.Proofs.Statistics.Halves

/-!
The order of the variants in exact arithmetic. Which of the variants that lead a half is taken for its
winner depends on their order, and nothing else does: the counts of two orders differ by no more than
the splits whose leaders do not all fare alike in the other half.
-/
namespace BacktestAudit.Statistics.Overfitting
open BacktestAudit.Statistics.Exact BacktestAudit.Data
set_option autoImplicit false

/-! ## Leaders -/

section Leaders

variable {α : Type} [Scalar α]

/-- The variants that none surpasses in a part of the time. -/
def leaders (rows : ℕ) (ws : List α) (variants : List (BlockSums α)) : List (BlockSums α) :=
  variants.filter fun v =>
    variants.all fun u => !Scalar.lt (sharpeOfPart rows ws v) (sharpeOfPart rows ws u)

/-- Whether a variant ranks at the median of all or below it in a part of the time. -/
def fallsLow (rows : ℕ) (ws : List α) (variants : List (BlockSums α)) (v : BlockSums α) : Bool :=
  isAtMostEven (doubledRank (variants.map (sharpeOfPart rows ws)) (sharpeOfPart rows ws v))
    variants.length

/-- Whether some of the leaders of a half are degraded in the other one, and some are not. -/
def isContested (blocks rows : ℕ) (variants : List (BlockSums α)) (half : List ℕ) : Bool :=
  let ws : List α := weights blocks half
  let falls := fallsLow rows (otherWeights ws) variants
  (leaders rows ws variants).any falls && !(leaders rows ws variants).all falls

end Leaders

/-! ## The winner -/

/-- Looking on, the greatest number so far stays the greatest of all that was seen. -/
theorem first_greatest_from {seen xs : List ℝ} {best : ℕ × ℝ} (hbest : seen[best.1]? = some best.2)
    (hmax : ∀ y ∈ seen, y ≤ best.2) :
    (seen ++ xs)[(firstGreatestFrom best seen.length xs).1]? =
        some (firstGreatestFrom best seen.length xs).2 ∧
      ∀ y ∈ seen ++ xs, y ≤ (firstGreatestFrom best seen.length xs).2 := by
  induction xs generalizing seen best with
  | nil => simpa [firstGreatestFrom] using ⟨hbest, hmax⟩
  | cons x xs ih =>
    have hlength : seen.length + 1 = (seen ++ [x]).length := by simp
    rw [firstGreatestFrom, hlength, List.append_cons]
    refine ih ?_ fun y hy => ?_
    · split
      · exact List.getElem?_concat_length ..
      · rw [List.getElem?_append_left (List.getElem?_eq_some_iff.mp hbest).1, hbest]
    · rw [List.mem_append, List.mem_singleton] at hy
      rw [lt_eq]
      split
      · next hlt =>
        rcases hy with hy | rfl
        · exact (hmax y hy).trans (of_decide_eq_true hlt).le
        · exact le_rfl
      · next hlt =>
        rcases hy with hy | rfl
        · exact hmax y hy
        · exact not_lt.mp fun h => hlt (decide_eq_true h)

theorem first_greatest_spec {xs : List ℝ} (h : xs ≠ []) :
    ∃ x, xs[firstGreatest xs]? = some x ∧ ∀ y ∈ xs, y ≤ x := by
  cases xs with
  | nil => exact absurd rfl h
  | cons x xs =>
    have := @first_greatest_from [x] xs (0, x) rfl (by simp)
    exact ⟨_, this.1, this.2⟩

variable {blocks rows : ℕ} {variants variants' : List (BlockSums ℝ)} {half : List ℕ}

theorem exists_winner (h : variants ≠ []) :
    ∃ w ∈ leaders rows (weights blocks half) variants, isDegraded blocks rows variants half =
      fallsLow rows (otherWeights (weights blocks half)) variants w := by
  obtain ⟨x, hx, hmax⟩ := first_greatest_spec
    (mt List.map_eq_nil_iff.mp h : variants.map (sharpeOfPart rows (weights blocks half)) ≠ [])
  rw [List.getElem?_map, Option.map_eq_some_iff] at hx
  obtain ⟨w, hw, rfl⟩ := hx
  refine ⟨w, ?_, ?_⟩
  · refine List.mem_filter.mpr ⟨List.mem_of_getElem? hw, List.all_eq_true.mpr fun u hu => ?_⟩
    simpa using hmax _ (List.mem_map_of_mem hu)
  · unfold isDegraded ranksLow fallsLow
    dsimp only
    rw [List.getD_eq_getElem?_getD, List.getElem?_map, hw, List.length_map]
    rfl

/-! ## Order -/

theorem doubled_rank_perm {xs ys : List ℝ} (h : xs.Perm ys) (x : ℝ) :
    doubledRank xs x = doubledRank ys x := by
  unfold doubledRank
  rw [(h.filter _).length_eq, (h.filter _).length_eq]

theorem falls_low_perm (h : variants.Perm variants') (ws : List ℝ) (v : BlockSums ℝ) :
    fallsLow rows ws variants v = fallsLow rows ws variants' v := by
  unfold fallsLow
  rw [doubled_rank_perm (h.map _), h.length_eq]

theorem leaders_perm (h : variants.Perm variants') (ws : List ℝ) :
    (leaders rows ws variants).Perm (leaders rows ws variants') := by
  unfold leaders
  refine (h.filter _).trans (List.Perm.of_eq (List.filter_congr fun v _ => ?_))
  exact h.all_eq

theorem is_contested_perm (h : variants.Perm variants') :
    isContested blocks rows variants = isContested blocks rows variants' := by
  funext half
  unfold isContested
  dsimp only
  rw [funext (falls_low_perm h _), (leaders_perm h _).any_eq, (leaders_perm h _).all_eq]

theorem degraded_of_uncontested (hvariants : variants ≠ []) (h : variants.Perm variants')
    (hcontest : isContested blocks rows variants half = false) :
    isDegraded blocks rows variants half = isDegraded blocks rows variants' half := by
  obtain ⟨w, hw, hdegraded⟩ := @exists_winner blocks rows variants half hvariants
  obtain ⟨w', hw', hdegraded'⟩ := @exists_winner blocks rows variants' half
    fun hnil => hvariants (List.perm_nil.mp (hnil ▸ h))
  rw [hdegraded, hdegraded', ← falls_low_perm h]
  have hw' := (leaders_perm h _).mem_iff.mpr hw'
  simp only [isContested, Bool.and_eq_false_iff, Bool.not_eq_false', List.any_eq_false,
    List.all_eq_true] at hcontest
  rcases hcontest with hnone | hall
  · rw [Bool.eq_false_iff.mpr (hnone w hw), Bool.eq_false_iff.mpr (hnone w' hw')]
  · rw [hall w hw, hall w' hw']

/-- Counts of two orders are no further apart than there are contested halves. -/
theorem degraded_count_le (hvariants : variants ≠ []) (h : variants.Perm variants')
    (halves : List (List ℕ)) :
    degradedCount blocks rows variants halves ≤ degradedCount blocks rows variants' halves +
      halves.countP (isContested blocks rows variants) := by
  unfold degradedCount
  induction halves with
  | nil => simp
  | cons half halves ih =>
    simp only [List.countP_cons]
    cases hcontest : isContested blocks rows variants half with
    | false =>
      rw [degraded_of_uncontested hvariants h hcontest]
      split <;> simp <;> omega
    | true => split <;> split <;> simp <;> omega

/-- With no contested half, counts of two orders are the same. -/
theorem degraded_count_eq (hvariants : variants ≠ []) (h : variants.Perm variants')
    {halves : List (List ℕ)}
    (hcontest : ∀ half ∈ halves, isContested blocks rows variants half = false) :
    degradedCount blocks rows variants halves = degradedCount blocks rows variants' halves :=
  List.countP_congr fun half hhalf => by
    rw [degraded_of_uncontested hvariants h (hcontest half hhalf)]

/-! ## Two blocks -/

theorem weights_of_two : (weights 2 [0] : List ℝ) = [1, 0] ∧ (weights 2 [1] : List ℝ) = [0, 1] ∧
    otherWeights ([1, 0] : List ℝ) = [0, 1] ∧ otherWeights ([0, 1] : List ℝ) = [1, 0] := by
  simp [weights, otherWeights, List.range_succ]

/-- Two blocks of three returns that rise by one, so that their deviation is one. -/
def rising (x y : ℝ) : List ℝ := [x - 1, x, x + 1, y - 1, y, y + 1]

theorem sharpe_of_rising (x y : ℝ) :
    sharpeOfPart 3 [1, 0] (.ofReturns 2 (rising x y)) = x ∧
      sharpeOfPart 3 [0, 1] (.ofReturns 2 (rising x y)) = y := by
  have hmean (z : ℝ) : meanOfSum 3 (z - 1 + z + (z + 1)) = z := by
    rw [meanOfSum, of_nat_eq]
    push_cast
    ring
  have hvariance (z : ℝ) :
      varianceOfSums 3 (z - 1 + z + (z + 1)) ((z - 1) ^ 2 + z ^ 2 + (z + 1) ^ 2) = 1 := by
    have hone : ((z - 1) ^ 2 + z ^ 2 + (z + 1) ^ 2 - (3 : ℕ) * z ^ 2) / (3 - 1 : ℕ) = 1 := by
      push_cast
      ring
    rw [varianceOfSums, hmean, square_eq, of_nat_eq, of_nat_eq, hone,
      clamp_negative_of_nonneg zero_le_one]
  have hratio (z : ℝ) :
      sharpeOfSums 3 (z - 1 + z + (z + 1)) ((z - 1) ^ 2 + z ^ 2 + (z + 1) ^ 2) = z := by
    rw [sharpeOfSums, hmean, hvariance]
    simp [zero]
  constructor
  · simpa [sharpeOfPart, weightedSum, plainSum, BlockSums.ofReturns, rising, pieces, runningSum,
      zero, square_eq] using hratio x
  · simpa [sharpeOfPart, weightedSum, plainSum, BlockSums.ofReturns, rising, pieces, runningSum,
      zero, square_eq] using hratio y

/-! ## Estimates -/

theorem length_of_columns_perm {table table' : List (List ℝ)} {width : ℕ} (hwidth : 0 < width)
    (h : (columns width table).Perm (columns width table')) : table.length = table'.length := by
  have hmem : column 0 table ∈ columns width table' :=
    h.subset (List.mem_map.mpr ⟨0, List.mem_range.mpr hwidth, rfl⟩)
  obtain ⟨j, -, hj⟩ := List.mem_map.mp hmem
  simpa [column] using (congrArg List.length hj).symm

/-- In exact arithmetic, the variants of an accepted table may be put in any other order: the table is
accepted again, and the degraded splits are no further apart than the contested ones. Where no split
is contested, the estimate is the same. -/
theorem estimate_of_reordered {plan : Plan} {cancel : ℕ → Bool} {table table' : List (List ℝ)}
    {width : ℕ} {e : Estimate} (hwidth : ∀ row ∈ table, row.length = width)
    (hwidth' : ∀ row ∈ table', row.length = width)
    (hperm : (columns width table).Perm (columns width table'))
    (h : estimate plan cancel (.ofRows table) = .ok e) :
    ∃ e' splits, estimate plan cancel (.ofRows table') = .ok e' ∧ plan.splits = .ok splits ∧
      e'.combinations = e.combinations ∧ e'.blocks = e.blocks ∧ e'.exhaustive = e.exhaustive ∧
      e.degraded ≤ e'.degraded + splits.halves.countP (isContested (blockCount plan)
        (table.length / 2) (variantsOf (blockCount plan) table)) ∧
      e'.degraded ≤ e.degraded + splits.halves.countP (isContested (blockCount plan)
        (table.length / 2) (variantsOf (blockCount plan) table)) ∧
      ((∀ half ∈ splits.halves, isContested (blockCount plan) (table.length / 2)
        (variantsOf (blockCount plan) table) half = false) → e' = e) := by
  obtain ⟨htwo, hfour, -⟩ := shape_of_estimate hwidth h
  have hlength : table'.length = table.length := (length_of_columns_perm (by omega) hperm).symm
  obtain ⟨splits, looked, hsplits, hlooked, rfl, htold⟩ :=
    estimate_of_shape hwidth hwidth' hlength h
  have hvariants :
      (variantsOf (blockCount plan) table).Perm (variantsOf (blockCount plan) table') := by
    rw [variants_of_table _ hwidth hfour, variants_of_table _ hwidth' (by omega)]
    exact hperm.map _
  have hsome : variantsOf (blockCount plan) table ≠ [] := by
    refine List.ne_nil_of_length_pos ?_
    rw [variants_of_table _ hwidth hfour, List.length_map, columns, List.length_map,
      List.length_range]
    omega
  have hsome' : variantsOf (blockCount plan) table' ≠ [] := fun hnil =>
    hsome (List.perm_nil.mp (hnil ▸ hvariants))
  have hsub : looked.Sublist splits.halves := by
    rcases hlooked with rfl | rfl
    · exact List.Sublist.refl _
    · exact List.nil_sublist _
  refine ⟨_, splits, htold, hsplits, rfl, rfl, rfl, ?_, ?_, fun hnone => ?_⟩
  · refine (degraded_count_le hsome hvariants _).trans ?_
    rw [← hlength]
    exact Nat.add_le_add_left hsub.countP_le _
  · refine (degraded_count_le hsome' hvariants.symm _).trans ?_
    rw [hlength, ← is_contested_perm hvariants]
    exact Nat.add_le_add_left hsub.countP_le _
  · unfold told
    rw [degraded_count_eq hsome hvariants fun half hhalf => hnone half (hsub.subset hhalf), hlength]

/-- Two variants, each leading alone in one of two blocks, tell the same in either order. -/
theorem lone_leaders_reordered :
    let table : List (List ℝ) := [[0, 1], [1, 2], [2, 3], [1, 0], [2, 1], [3, 2]]
    let swapped : List (List ℝ) := [[1, 0], [2, 1], [3, 2], [0, 1], [1, 2], [2, 3]]
    ∃ e, estimate twoBlocks (fun _ => false) (.ofRows table) = .ok e ∧
      estimate twoBlocks (fun _ => false) (.ofRows swapped) = .ok e := by
  intro table swapped
  have hcolumns : columns 2 table = [rising 1 2, rising 2 1] ∧
      columns 2 swapped = [rising 2 1, rising 1 2] := by
    norm_num [columns, column, List.range_succ, rising, table, swapped]
  have hperm : (columns 2 table).Perm (columns 2 swapped) := by
    rw [hcolumns.1, hcolumns.2]
    exact List.Perm.swap ..
  have hwidth : ∀ row ∈ table, row.length = 2 := by simp [table]
  have htable := estimate_of_two_blocks le_rfl hwidth (by decide) (by decide)
  obtain ⟨e', splits, hswapped, hsplits, -, -, -, -, -, hsame⟩ :=
    estimate_of_reordered hwidth (by simp [swapped]) hperm htable
  obtain rfl : ⟨[[0], [1]], true⟩ = splits := Except.ok.inj hsplits
  refine ⟨_, htable, hswapped.trans (congrArg _ (hsame ?_))⟩
  have hvariants : variantsOf 2 table = [.ofReturns 2 (rising 1 2), .ofReturns 2 (rising 2 1)] :=
    congrArg (List.map _) hcolumns.1
  have hblocks : blockCount twoBlocks = 2 := rfl
  have hlength : table.length / 2 = 3 := by decide
  rw [hblocks, hlength, hvariants]
  norm_num [isContested, leaders, fallsLow, weights_of_two, sharpe_of_rising, doubledRank,
    isAtMostEven]

/-- Two variants that are tied in one block and differ in the other tell more splits to be degraded
in one order than in the other. -/
theorem tied_leaders_reordered :
    let table : List (List ℝ) := [[0, 0], [1, 1], [2, 2], [0, 1], [1, 2], [2, 3]]
    let swapped : List (List ℝ) := [[0, 0], [1, 1], [2, 2], [1, 0], [2, 1], [3, 2]]
    (columns 2 table).Perm (columns 2 swapped) ∧
      ∃ e e', estimate twoBlocks (fun _ => false) (.ofRows table) = .ok e ∧
        estimate twoBlocks (fun _ => false) (.ofRows swapped) = .ok e' ∧
        e.degraded = 2 ∧ e'.degraded = 1 := by
  intro table swapped
  have hcolumns : columns 2 table = [rising 1 1, rising 1 2] ∧
      columns 2 swapped = [rising 1 2, rising 1 1] := by
    norm_num [columns, column, List.range_succ, rising, table, swapped]
  have hdegraded : degradedCount 2 (table.length / 2) (variantsOf 2 table) [[0], [1]] = 2 := by
    have hvariants : variantsOf 2 table = [.ofReturns 2 (rising 1 1), .ofReturns 2 (rising 1 2)] :=
      congrArg (List.map _) hcolumns.1
    have hlength : table.length / 2 = 3 := by decide
    rw [hvariants, hlength]
    norm_num [degradedCount, isDegraded, weights_of_two, sharpe_of_rising, ranksLow, firstGreatest,
      firstGreatestFrom, doubledRank, isAtMostEven]
  have hdegraded' : degradedCount 2 (swapped.length / 2) (variantsOf 2 swapped) [[0], [1]] = 1 := by
    have hvariants :
        variantsOf 2 swapped = [.ofReturns 2 (rising 1 2), .ofReturns 2 (rising 1 1)] :=
      congrArg (List.map _) hcolumns.2
    have hlength : swapped.length / 2 = 3 := by decide
    rw [hvariants, hlength]
    norm_num [degradedCount, isDegraded, weights_of_two, sharpe_of_rising, ranksLow, firstGreatest,
      firstGreatestFrom, doubledRank, isAtMostEven]
  have hwidth : ∀ row ∈ table, row.length = 2 := by simp [table]
  have hwidth' : ∀ row ∈ swapped, row.length = 2 := by simp [swapped]
  refine ⟨?_, _, _, estimate_of_two_blocks le_rfl hwidth (by decide) (by decide),
    estimate_of_two_blocks le_rfl hwidth' (by decide) (by decide),
    (degraded_of_two_blocks ..).trans hdegraded, (degraded_of_two_blocks ..).trans hdegraded'⟩
  rw [hcolumns.1, hcolumns.2]
  exact List.Perm.swap ..

end BacktestAudit.Statistics.Overfitting
