import BacktestAudit.Proofs.Statistics.Halves
import Mathlib.Data.List.Perm.Basic

/-!
The order of time in exact arithmetic. When all splits of the blocks are looked at, neither the order
of the blocks matters nor the order of the returns in a block: the splits of the rearranged blocks are
those of the blocks as they were, and of a half only sums are taken.
-/
namespace BacktestAudit.Statistics.Overfitting
open BacktestAudit.Statistics.Exact BacktestAudit.Data BacktestAudit.Data.Outcome
set_option autoImplicit false

/-! ## Splits of a list -/

section Splits

variable {β γ : Type}

/-- In how many ways to choose `k` items of a list something holds of the items chosen and those
left. -/
def splitCount (f : List β → List β → Bool) : ℕ → List β → ℕ
  | 0, xs => if f [] xs then 1 else 0
  | _ + 1, [] => 0
  | k + 1, x :: xs =>
    splitCount (fun a b => f (x :: a) b) k xs + splitCount (fun a b => f a (x :: b)) (k + 1) xs

theorem combinations_map (f : β → γ) (k : ℕ) (xs : List β) :
    combinations k (xs.map f) = (combinations k xs).map (List.map f) := by
  induction xs generalizing k with
  | nil => cases k <;> rfl
  | cons x xs ih =>
    cases k with
    | zero => rfl
    | succ k =>
      rw [List.map_cons, combinations, combinations, ih, ih, List.map_append, List.map_map,
        List.map_map]
      rfl

/-- Combinations of places are all the ways to choose items. -/
theorem count_combinations (f : List β → List β → Bool) (k : ℕ) (xs : List β) :
    (combinations k (List.range xs.length)).countP (fun half =>
      f (kept (fun i => decide (i ∈ half)) xs) (kept (fun i => decide (i ∉ half)) xs)) =
      splitCount f k xs := by
  induction xs generalizing f k with
  | nil => cases k <;> simp [combinations, splitCount]
  | cons x xs ih =>
    cases k with
    | zero => simp [combinations, splitCount, kept_const]
    | succ k =>
      -- The first place is among those chosen or not, and all others are one further on.
      rw [List.length_cons, List.range_succ_eq_map, combinations, combinations_map,
        combinations_map, splitCount, List.countP_append, List.countP_map, List.countP_map,
        List.countP_map, ← ih, ← ih]
      simp [kept_cons, Function.comp_def]

variable {f : List β → List β → Bool} {xs ys : List β}

theorem split_count_perm
    (hf : ∀ {a a' b b' : List β}, a.Perm a' → b.Perm b' → f a b = f a' b') (h : xs.Perm ys)
    (k : ℕ) : splitCount f k xs = splitCount f k ys := by
  induction h generalizing f k with
  | nil => rfl
  | cons x h ih =>
    cases k with
    | zero => rw [splitCount, splitCount, hf .nil (h.cons x)]
    | succ k =>
      rw [splitCount, splitCount, ih fun ha hb => hf (ha.cons x) hb,
        ih fun ha hb => hf ha (hb.cons x)]
  | swap x y l =>
    have hchosen : (fun a b => f (y :: x :: a) b) = fun a b => f (x :: y :: a) b :=
      funext₂ fun _ _ => hf (.swap ..) (.refl _)
    have hleft : (fun a b => f a (y :: x :: b)) = fun a b => f a (x :: y :: b) :=
      funext₂ fun _ _ => hf (.refl _) (.swap ..)
    cases k with
    | zero => rw [splitCount, splitCount, hf (.refl _) (.swap ..)]
    | succ k =>
      -- The counts with one of the two items chosen and the other left change places.
      cases k <;> simp only [splitCount, hchosen, hleft] <;> omega
  | trans _ _ ih₁ ih₂ => exact (ih₁ hf k).trans (ih₂ hf k)

theorem split_count_alike {R : β → γ → Prop} {g : List γ → List γ → Bool} {zs : List γ}
    (hf : ∀ {a b : List β} {c d : List γ}, List.Forall₂ R a c → List.Forall₂ R b d → f a b = g c d)
    (h : List.Forall₂ R xs zs) (k : ℕ) : splitCount f k xs = splitCount g k zs := by
  induction h generalizing f g k with
  | nil =>
    cases k with
    | zero => rw [splitCount, splitCount, hf .nil .nil]
    | succ k => rfl
  | cons hx h ih =>
    cases k with
    | zero => rw [splitCount, splitCount, hf .nil (.cons hx h)]
    | succ k =>
      rw [splitCount, splitCount, ih fun ha hb => hf (.cons hx ha) hb,
        ih fun ha hb => hf ha (.cons hx hb)]

end Splits

/-! ## Halves as tables -/

theorem sharpe_perm {xs ys : List ℝ} (h : xs.Perm ys) : sharpe xs = sharpe ys := by
  have hmean : mean xs = mean ys := by rw [mean_eq, mean_eq, h.sum_eq, h.length_eq]
  have hvariance : variance 1 xs = variance 1 ys := by
    rw [variance_eq, variance_eq, hmean, (h.map _).sum_eq, h.length_eq]
  rw [sharpe_eq, sharpe_eq, hmean, hvariance]

/-- The Sharpe ratios of the columns of rows. -/
noncomputable def sharpes (width : ℕ) (rows : List (List ℝ)) : List ℝ :=
  (columns width rows).map sharpe

theorem sharpes_perm {width : ℕ} {rows rows' : List (List ℝ)} (h : rows.Perm rows') :
    sharpes width rows = sharpes width rows' := by
  unfold sharpes columns
  rw [List.map_map, List.map_map]
  exact List.map_congr_left fun j _ => sharpe_perm (h.map _)

/-- Whether the column that is best in some blocks ranks low in others. -/
noncomputable def fallsOutside (width : ℕ) (inside outside : List (List (List ℝ))) : Bool :=
  ranksLow (sharpes width outside.flatten) (firstGreatest (sharpes width inside.flatten))

theorem falls_outside_of_perm {width : ℕ} {inside inside' outside outside' : List (List (List ℝ))}
    (hin : inside.flatten.Perm inside'.flatten) (hout : outside.flatten.Perm outside'.flatten) :
    fallsOutside width inside outside = fallsOutside width inside' outside' := by
  unfold fallsOutside
  rw [sharpes_perm hin, sharpes_perm hout]

variable {blocks length width : ℕ} {table table' : List (List ℝ)}

/-- Sums of the blocks kept give the ratios of the columns of these blocks. -/
theorem sharpes_of_kept (p : ℕ → Bool) (hwidth : ∀ row ∈ table, row.length = width)
    (hrows : 4 ≤ table.length) (hlength : table.length = blocks * length)
    (hcount : (List.range blocks).countP p * length = table.length / 2) :
    (variantsOf blocks table).map (sharpeOfPart (table.length / 2) (weightsOf blocks p)) =
      sharpes width (kept p (pieces length blocks table)).flatten := by
  have hpos : 0 < length := Nat.pos_of_ne_zero fun hzero => by
    rw [hzero, Nat.mul_zero] at hlength
    omega
  have hhalf : 2 ≤ table.length / 2 := by omega
  rw [variants_of_table _ hwidth hrows, sharpes, columns, columns, List.map_map, List.map_map,
    List.map_map, ← returns_in_eq p hpos hlength]
  exact List.map_congr_left fun j _ => (blocks_tell p j hlength hhalf hcount).ratio

/-- A half of the blocks is degraded when the column that is best in it ranks low in the others. -/
theorem is_degraded_eq {half : List ℕ} (hwidth : ∀ row ∈ table, row.length = width)
    (hrows : 4 ≤ table.length) (heven : blocks % 2 = 0) (hlength : table.length = blocks * length)
    (hhalf : half ∈ combinations (blocks / 2) (List.range blocks)) :
    isDegraded blocks (table.length / 2) (variantsOf blocks table) half =
      fallsOutside width (kept (fun b => decide (b ∈ half)) (pieces length blocks table))
        (kept (fun b => decide (b ∉ half)) (pieces length blocks table)) := by
  obtain ⟨hsub, hchosen⟩ := sublist_of_mem_combinations hhalf
  have hnodup : half.Nodup := List.nodup_range.sublist hsub
  have hbound : ∀ b ∈ half, b < blocks := fun b hb => List.mem_range.mp (hsub.subset hb)
  obtain ⟨m, rfl⟩ : ∃ m, blocks = 2 * m := ⟨blocks / 2, by omega⟩
  rw [Nat.mul_div_cancel_left m two_pos] at hchosen
  have hsize : m * length = table.length / 2 := by rw [hlength, Nat.mul_assoc]; omega
  unfold isDegraded fallsOutside
  dsimp only
  rw [other_weights_eq, weights_eq, sharpes_of_kept _ hwidth hrows hlength,
    sharpes_of_kept _ hwidth hrows hlength]
  · rw [count_of_half hnodup hbound, hchosen, hsize]
  · rw [count_of_others hnodup hbound, hchosen, ← hsize]
    congr 1
    omega

/-- All splits together count those of the blocks of the table. -/
theorem degraded_count_of_all (hwidth : ∀ row ∈ table, row.length = width)
    (hrows : 4 ≤ table.length) (heven : blocks % 2 = 0) (hlength : table.length = blocks * length) :
    degradedCount blocks (table.length / 2) (variantsOf blocks table)
        (combinations (blocks / 2) (List.range blocks)) =
      splitCount (fallsOutside width) (blocks / 2) (pieces length blocks table) := by
  rw [← count_combinations, pieces_length]
  exact List.countP_congr fun half hhalf => by
    rw [is_degraded_eq hwidth hrows heven hlength hhalf]

/-! ## Rearranged tables -/

/-- Whether rows are those of a table with its blocks in any order and the rows of each block in any
order. -/
def Rearranged {β : Type} (blocks : ℕ) (table rows : List β) : Prop :=
  rows.length = table.length ∧
    ∃ shuffled, List.Forall₂ List.Perm (pieces (table.length / blocks) blocks table) shuffled ∧
      shuffled.Perm (pieces (table.length / blocks) blocks rows)

theorem split_count_rearranged (hblocks : 0 < blocks) (hlength : table.length = blocks * length)
    (h : Rearranged blocks table table') (k : ℕ) :
    splitCount (fallsOutside width) k (pieces length blocks table) =
      splitCount (fallsOutside width) k (pieces length blocks table') := by
  obtain ⟨-, shuffled, hwithin, hacross⟩ := h
  rw [hlength, Nat.mul_div_cancel_left _ hblocks] at hwithin hacross
  refine (split_count_alike (fun ha hb => ?_) hwithin k).trans
    (split_count_perm (fun ha hb => ?_) hacross k)
  · exact falls_outside_of_perm (.flatten_congr ha) (.flatten_congr hb)
  · exact falls_outside_of_perm ha.flatten hb.flatten

theorem perm_of_rearranged {β : Type} {table rows : List β} (hpos : 0 < length)
    (hblocks : 0 < blocks) (hlength : table.length = blocks * length)
    (h : Rearranged blocks table rows) : table.Perm rows := by
  obtain ⟨hsize, shuffled, hwithin, hacross⟩ := h
  rw [hlength, Nat.mul_div_cancel_left _ hblocks] at hwithin hacross
  have hperm := (List.Perm.flatten_congr hwithin).trans hacross.flatten
  rwa [flatten_pieces hpos hlength, flatten_pieces hpos (hsize.trans hlength)] at hperm

/-! ## Estimates -/

theorem even_blocks_eq_ok {blocks : Number} {count n : ℤ} (h : evenBlocks blocks = .ok count)
    (hn : blocks.toInt? = some n) : count = n ∧ 2 ≤ n ∧ n % 2 = 0 := by
  have hexact : blocks.toExtended = .ratio n 1 := by
    cases blocks <;> simp_all [Number.toInt?, Number.toExtended, Decimal.Extended.ofInt]
  unfold evenBlocks at h
  rw [hexact] at h
  dsimp only at h
  split at h
  · cases h
  · next haccepted =>
    simp only [Nat.cast_one, mul_one, Bool.or_eq_true, decide_eq_true_eq, not_or, not_lt,
      Decidable.not_not] at haccepted
    cases h
    exact ⟨Int.ediv_one n, haccepted⟩

/-- With no more blocks than all halves are taken of, all halves are looked at. -/
theorem splits_of_exact {plan : SplitPlan} {splits : Splits} (hexact : plan.isExact = .ok true)
    (h : plan.splits = .ok splits) :
    ∃ n : ℕ, plan.blocks.toInt? = some (n : ℤ) ∧
      splits = ⟨combinations (n / 2) (List.range n), true⟩ := by
  unfold SplitPlan.splits at h
  simp only [bind_eq_ok] at h
  obtain ⟨exact, hexact', h⟩ := h
  obtain rfl : true = exact := Except.ok.inj (hexact.symm.trans hexact')
  rw [if_pos rfl] at h
  simp only [bind_eq_ok] at h
  obtain ⟨count, hcount, n, hn, h⟩ := h
  cases h
  unfold SplitPlan.natOf at hn
  split at hn
  · cases hn
  · next hpos =>
    cases hn
    refine ⟨count.toNat, ?_, rfl⟩
    rw [Int.toNat_of_nonneg (by omega)]
    cases hblocks : plan.blocks.toInt? with
    | none => rw [hblocks] at hcount; cases hcount
    | some k => rw [hblocks] at hcount; cases hcount; rfl

/-- In exact arithmetic, with no more blocks than all halves are taken of, a table tells the same when
its blocks are put in any other order and the rows of each block in any other order. -/
theorem estimate_of_rearranged {plan : Plan} {cancel : ℕ → Bool} {e : Estimate}
    (hwidth : ∀ row ∈ table, row.length = width) (hexact : plan.isExact = .ok true)
    (hrearranged : Rearranged (blockCount plan) table table')
    (h : estimate plan cancel (.ofRows table) = .ok e) :
    estimate plan cancel (.ofRows table') = .ok e := by
  obtain ⟨-, hfour, count, splits, hcount, hmod, hsplits⟩ := shape_of_estimate hwidth h
  obtain ⟨n, hn, rfl⟩ := splits_of_exact hexact hsplits
  obtain ⟨rfl, hpos, heven⟩ := even_blocks_eq_ok hcount hn
  obtain rfl : n = blockCount plan := by rw [blockCount, hn]; rfl
  obtain ⟨length, hlength⟩ : blockCount plan ∣ table.length :=
    Int.natCast_dvd_natCast.mp (Int.dvd_of_emod_eq_zero hmod)
  have hlengthPos : 0 < length := Nat.pos_of_ne_zero fun hzero => by
    rw [hzero, Nat.mul_zero] at hlength
    omega
  have hsize : table'.length = table.length := hrearranged.1
  have hwidth' : ∀ row ∈ table', row.length = width := fun row hrow =>
    hwidth row ((perm_of_rearranged hlengthPos (by omega) hlength hrearranged).mem_iff.mpr hrow)
  obtain ⟨splits, looked, hsplits', hlooked, rfl, htold⟩ :=
    estimate_of_shape hwidth hwidth' hsize h
  obtain rfl := Except.ok.inj (hsplits.symm.trans hsplits')
  have hsame : degradedCount (blockCount plan) (table'.length / 2)
      (variantsOf (blockCount plan) table') looked = degradedCount (blockCount plan)
      (table.length / 2) (variantsOf (blockCount plan) table) looked := by
    rcases hlooked with rfl | rfl
    · rw [degraded_count_of_all hwidth' (hsize ▸ hfour) (by omega) (hsize.trans hlength),
        degraded_count_of_all hwidth hfour (by omega) hlength,
        split_count_rearranged (by omega) hlength hrearranged]
    · rw [degradedCount, degradedCount, List.countP_nil, List.countP_nil]
  rw [htold]
  unfold told
  rw [hsame]

/-- Two blocks of three rows, put the other way round and each in another order. -/
theorem swapped_blocks_rearranged :
    let table : List (List ℝ) := [[1, 5], [2, 3], [4, 4], [3, 1], [2, 2], [7, 0]]
    let rearranged : List (List ℝ) := [[7, 0], [3, 1], [2, 2], [2, 3], [1, 5], [4, 4]]
    ∃ e, estimate twoBlocks (fun _ => false) (.ofRows table) = .ok e ∧
      estimate twoBlocks (fun _ => false) (.ofRows rearranged) = .ok e := by
  intro table rearranged
  have hwidth : ∀ row ∈ table, row.length = 2 := by simp [table]
  have htable := estimate_of_two_blocks le_rfl hwidth (by decide) (by decide)
  have hbefore : pieces (table.length / 2) 2 table =
      [[[1, 5], [2, 3], [4, 4]], [[3, 1], [2, 2], [7, 0]]] := by simp [table, pieces]
  have hafter : pieces (table.length / 2) 2 rearranged =
      [[[7, 0], [3, 1], [2, 2]], [[2, 3], [1, 5], [4, 4]]] := by simp [table, rearranged, pieces]
  have hfirst : List.Perm [[1, 5], [2, 3], [4, 4]] ([[2, 3], [1, 5], [4, 4]] : List (List ℝ)) :=
    .swap ..
  have hsecond : List.Perm [[3, 1], [2, 2], [7, 0]] ([[7, 0], [3, 1], [2, 2]] : List (List ℝ)) :=
    @List.perm_append_comm _ [[3, 1], [2, 2]] [[7, 0]]
  have hrearranged : Rearranged 2 table rearranged := by
    unfold Rearranged
    rw [hbefore, hafter]
    exact ⟨rfl, _, .cons hfirst (.cons hsecond .nil), .swap ..⟩
  exact ⟨_, htable, estimate_of_rearranged hwidth rfl hrearranged htable⟩

end BacktestAudit.Statistics.Overfitting
