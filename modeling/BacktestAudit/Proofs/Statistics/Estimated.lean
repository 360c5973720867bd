import BacktestAudit.Data.Outcome
import BacktestAudit.Proofs.Decimal.Doubles
import BacktestAudit.Statistics.Overfitting.Estimate

/-!
What an estimate of overfitting tells: the splits of its plan, and in how many of them the winner is
degraded. It is told exactly when rows, plan, batches and workers are accepted and nothing cancels,
and its probability is always a number.
-/
namespace BacktestAudit.Statistics.Overfitting
open BacktestAudit.Data BacktestAudit.Data.Outcome BacktestAudit.Decimal
set_option autoImplicit false

/-! ## Rows -/

theorem cut_flatten {α : Type} {rows : List (List α)} {width : Nat}
    (h : ∀ row ∈ rows, row.length = width) :
    (List.range rows.length).map (fun i => (rows.flatten.drop (i * width)).take width) = rows := by
  induction rows with
  | nil => rfl
  | cons row rows ih =>
    rw [List.forall_mem_cons] at h
    obtain ⟨rfl, hrows⟩ := h
    rw [List.length_cons, List.range_succ_eq_map, List.map_cons, List.map_map, List.flatten_cons]
    congr 1
    · simp
    · refine Eq.trans (List.map_congr_left fun i _ => ?_) (ih hrows)
      rw [Function.comp_apply, Nat.succ_mul, Nat.add_comm, ← List.drop_drop, List.drop_left]

theorem rows_of_rows {α : Type} {rows : List (List α)} {width : Nat}
    (h : ∀ row ∈ rows, row.length = width) : (Grid.ofRows rows).rows? = some rows := by
  refine congrArg some (cut_flatten fun row hrow => ?_)
  cases rows with
  | nil => cases hrow
  | cons first rest => rw [List.headD_cons, h row hrow, h first (List.mem_cons_self ..)]

theorem checked_rows_eq_ok {α : Type} {blocks : Number} {grid : Grid α} {rows : List (List α)} :
    checkedRows blocks grid = .ok rows ↔
      grid.rows? = some rows ∧ 2 ≤ grid.shape.getD 1 0 ∧ 4 ≤ rows.length ∧
        ∃ count, evenBlocks blocks = .ok count ∧ count ≤ rows.length ∧
          (rows.length : Int) % count = 0 := by
  unfold checkedRows
  rw [bind_eq_ok]
  cases hrows : grid.rows? with
  | none =>
    refine iff_of_false ?_ nofun
    rintro ⟨_, -, h⟩
    cases h
  | some found =>
    by_cases hwidth : 2 ≤ grid.shape.getD 1 0
    · simp only [if_pos hwidth, pure_bind, Option.some.injEq]
      constructor
      · rintro ⟨count, hcount, h⟩
        split at h
        · split at h <;> cases h
        · next hcut =>
          split at h
          · cases h
          · cases h
            simp only [Bool.or_eq_true, decide_eq_true_eq, not_or, Int.not_lt,
              Decidable.not_not] at hcut
            exact ⟨rfl, hwidth, by omega, count, hcount, hcut.1, hcut.2⟩
      · rintro ⟨rfl, -, hlength, count, hcount, hle, hmod⟩
        refine ⟨count, hcount, ?_⟩
        rw [if_neg (by simp only [Bool.or_eq_true, decide_eq_true_eq]; omega), if_neg (by omega)]
        rfl
    · refine iff_of_false ?_ fun h => hwidth h.2.1
      rintro ⟨_, -, h⟩
      dsimp only at h
      rw [if_neg hwidth] at h
      cases h

theorem head_length {α : Type} {table : List (List α)} {width : Nat}
    (h : ∀ row ∈ table, row.length = width) (hne : table ≠ []) :
    (table.headD []).length = width := by
  cases table with
  | nil => exact absurd rfl hne
  | cons row rest => exact h row (List.mem_cons_self ..)

/-- A table is accepted when it is at least four rows long and two wide, and the blocks divide its
rows. -/
theorem checked_rows_of_rows {α : Type} {blocks : Number} {table rows : List (List α)} {width : Nat}
    (h : ∀ row ∈ table, row.length = width) :
    checkedRows blocks (.ofRows table) = .ok rows ↔
      rows = table ∧ 2 ≤ width ∧ 4 ≤ table.length ∧
        ∃ count, evenBlocks blocks = .ok count ∧ count ≤ table.length ∧
          (table.length : Int) % count = 0 := by
  rw [checked_rows_eq_ok, rows_of_rows h, Option.some.injEq]
  change _ ∧ 2 ≤ (table.headD []).length ∧ _ ↔ _
  constructor
  · rintro ⟨rfl, hwidth, hlength, hcount⟩
    rw [head_length h (List.ne_nil_of_length_pos (by omega))] at hwidth
    exact ⟨rfl, hwidth, hlength, hcount⟩
  · rintro ⟨rfl, hwidth, hlength, hcount⟩
    rw [head_length h (List.ne_nil_of_length_pos (by omega))]
    exact ⟨rfl, hwidth, hlength, hcount⟩

/-! ## Batches -/

theorem batches_flatten {β : Type} {size : Nat} (h : 0 < size) (xs : List β) :
    (batches size xs).flatten = xs := by
  fun_induction batches size xs with
  | case1 xs hnil =>
    rcases hnil with rfl | hsize
    · rfl
    · omega
  | case2 xs hcons ih => rw [List.flatten_cons, ih, List.take_append_drop]

/-- A count goes through when no question asked before a batch is answered by cancelling. -/
theorem count_batches_eq_ok {α : Type} [Scalar α] {blocks rows : Nat}
    {variants : List (BlockSums α)} {cancel : Nat → Bool} {total asked done acc d : Nat}
    {parts : List (List (List Nat))} :
    countBatches (degradedCount blocks rows variants) cancel total asked done acc parts = .ok d ↔
      (∀ k < parts.length, cancel (asked + k) = false) ∧
        acc + degradedCount blocks rows variants parts.flatten = d := by
  unfold degradedCount
  induction parts generalizing asked done acc with
  | nil => simp [countBatches]
  | cons batch rest ih =>
    rw [countBatches]
    cases hc : cancel asked with
    | true =>
      simp only [if_true, reduceCtorEq, false_iff, not_and]
      intro h
      have := h 0 (by simp)
      rw [Nat.add_zero, hc] at this
      cases this
    | false =>
      rw [if_neg (by simp), ih, List.flatten_cons, List.countP_append, Nat.add_assoc]
      refine and_congr_left fun _ => ⟨fun h k hk => ?_, fun h k hk => ?_⟩
      · cases k with
        | zero => exact hc
        | succ k =>
          have := h k (by simpa using hk)
          rwa [Nat.add_assoc, Nat.add_comm 1] at this
      · have := h (k + 1) (by simpa using hk)
        rwa [Nat.add_assoc, Nat.add_comm 1]

theorem batches_of_eq_ok {β : Type} {size : Value} {xs : List β} {parts : List (List β)}
    (h : batchesOf size xs = .ok parts) : parts.flatten = xs ∨ parts.flatten = [] := by
  unfold batchesOf at h
  obtain ⟨n, -, h⟩ := bind_eq_ok.mp h
  split at h
  · cases h
  · cases h
    by_cases hn : 0 < n.toNat
    · exact .inl (batches_flatten hn xs)
    · right
      rw [batches, dif_pos (.inr (by omega)), List.flatten_nil]

/-! ## The estimate -/

variable {α : Type} [Scalar α] {plan : Plan} {cancel : Nat → Bool} {returns : Grid α}

def variantsOf (blocks : Nat) (rows : List (List α)) : List (BlockSums α) :=
  (columns (rows.headD []).length rows).map (BlockSums.ofReturns blocks)

theorem variants_of_table {table : List (List α)} {width : Nat} (blocks : Nat)
    (hwidth : ∀ row ∈ table, row.length = width) (hrows : 4 ≤ table.length) :
    variantsOf blocks table = (columns width table).map (BlockSums.ofReturns blocks) := by
  rw [variantsOf, head_length hwidth (List.ne_nil_of_length_pos (by omega))]

def blockCount (plan : Plan) : Nat := (plan.blocks.toInt?.getD 0).toNat

/-- What is told of rows when all splits were looked at. -/
def told (plan : Plan) (rows : List (List α)) (splits : Splits) (looked : List (List Nat)) :
    Estimate :=
  let degraded :=
    degradedCount (blockCount plan) (rows.length / 2) (variantsOf (blockCount plan) rows) looked
  { probability := Binary64.nearest false degraded splits.halves.length
    degraded, combinations := splits.halves.length, blocks := plan.blocks
    exhaustive := splits.exhaustive }

/-- An estimate is told when rows, plan, batches and workers are accepted and nothing cancels. -/
theorem estimate_eq_ok {e : Estimate} : estimate plan cancel returns = .ok e ↔
    ∃ rows splits parts, checkedRows plan.blocks returns = .ok rows ∧ plan.splits = .ok splits ∧
      batchesOf plan.batchSize splits.halves = .ok parts ∧
      checkWorkers plan.workers parts.length = .ok () ∧ (∀ k < parts.length, cancel k = false) ∧
      splits.halves.length ≠ 0 ∧ told plan rows splits parts.flatten = e := by
  unfold estimate
  simp only [bind_eq_ok, map_error_eq_ok, count_batches_eq_ok, Nat.zero_add]
  constructor
  · rintro ⟨rows, hrows, splits, hsplits, parts, hparts, ⟨⟩, hworkers, _, ⟨hcancel, rfl⟩, h⟩
    split at h
    · cases h
    · next htotal =>
      cases h
      exact ⟨rows, splits, parts, hrows, hsplits, hparts, hworkers, hcancel, htotal, rfl⟩
  · rintro ⟨rows, splits, parts, hrows, hsplits, hparts, hworkers, hcancel, htotal, rfl⟩
    refine ⟨rows, hrows, splits, hsplits, parts, hparts, (), hworkers, _, ⟨hcancel, rfl⟩, ?_⟩
    rw [if_neg htotal]
    rfl

/-- Tables of one shape are accepted alike, and the same splits of them are looked at: all there are,
or none when the batches are of a negative size. -/
theorem estimate_of_shape {table table' : List (List α)} {width : Nat} {e : Estimate}
    (hwidth : ∀ row ∈ table, row.length = width) (hwidth' : ∀ row ∈ table', row.length = width)
    (hlength : table'.length = table.length) (h : estimate plan cancel (.ofRows table) = .ok e) :
    ∃ splits looked, plan.splits = .ok splits ∧ (looked = splits.halves ∨ looked = []) ∧
      e = told plan table splits looked ∧
      estimate plan cancel (.ofRows table') = .ok (told plan table' splits looked) := by
  obtain ⟨rows, splits, parts, hrows, hsplits, hparts, hworkers, hcancel, htotal, rfl⟩ :=
    estimate_eq_ok.mp h
  obtain ⟨rfl, hshape⟩ := (checked_rows_of_rows hwidth).mp hrows
  have hrows' : checkedRows plan.blocks (.ofRows table') = .ok table' :=
    (checked_rows_of_rows hwidth').mpr ⟨rfl, by rwa [hlength]⟩
  exact ⟨splits, parts.flatten, hsplits, batches_of_eq_ok hparts, rfl, estimate_eq_ok.mpr
    ⟨table', splits, parts, hrows', hsplits, hparts, hworkers, hcancel, htotal, rfl⟩⟩

/-- A table that an estimate is told of is at least four rows long and two wide, and the blocks divide
its rows. -/
theorem shape_of_estimate {table : List (List α)} {width : Nat} {e : Estimate}
    (hwidth : ∀ row ∈ table, row.length = width)
    (h : estimate plan cancel (.ofRows table) = .ok e) :
    2 ≤ width ∧ 4 ≤ table.length ∧ ∃ count splits, evenBlocks plan.blocks = .ok count ∧
      (table.length : Int) % count = 0 ∧ plan.splits = .ok splits := by
  obtain ⟨rows, splits, -, hrows, hsplits, -⟩ := estimate_eq_ok.mp h
  obtain ⟨rfl, htwo, hfour, count, hcount, -, hmod⟩ := (checked_rows_of_rows hwidth).mp hrows
  exact ⟨htwo, hfour, count, splits, hcount, hmod, hsplits⟩

theorem probability_ne_nan {e : Estimate} (h : estimate plan cancel returns = .ok e) :
    Extended.ofFloat e.probability ≠ .nan := by
  obtain ⟨rows, splits, parts, -, -, -, -, -, -, rfl⟩ := estimate_eq_ok.mp h
  exact Binary64.nearest_ne_nan false _ _

/-! ## Two blocks -/

def twoBlocks : Plan where
  blocks := .int 2
  maxExact := .int 20
  maxSampled := .int 2000
  seed := .int 42
  batchSize := .int 256
  workers := none

theorem estimate_of_two_blocks {table : List (List α)} {width : Nat} (hwidth : 2 ≤ width)
    (htable : ∀ row ∈ table, row.length = width) (hrows : 4 ≤ table.length)
    (heven : table.length % 2 = 0) :
    estimate twoBlocks (fun _ => false) (.ofRows table) =
      .ok (told twoBlocks table ⟨[[0], [1]], true⟩ [[0], [1]]) := by
  refine estimate_eq_ok.mpr ⟨table, ⟨[[0], [1]], true⟩, [[[0], [1]]],
    (checked_rows_of_rows htable).mpr ⟨rfl, hwidth, hrows, 2, rfl, by omega, by omega⟩,
    rfl, to_option_eq_some.mp ?_, rfl, fun _ _ => rfl, by decide, rfl⟩
  decide +kernel

theorem degraded_of_two_blocks (table : List (List α)) (splits : Splits)
    (looked : List (List Nat)) : (told twoBlocks table splits looked).degraded =
      degradedCount 2 (table.length / 2) (variantsOf 2 table) looked :=
  rfl

end BacktestAudit.Statistics.Overfitting
