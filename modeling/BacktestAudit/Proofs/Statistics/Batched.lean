import BacktestAudit.Proofs.Statistics.Estimated
import Mathlib.Algebra.Order.Floor.Div

/-!
Batches and cancelling. However many splits a batch holds, an estimate that is not cancelled counts
what a single count over all splits counts. An estimate is cancelled by the first question that is
answered so, and it tells how many splits had been counted then.
-/
namespace BacktestAudit.Statistics.Overfitting
open BacktestAudit.Data BacktestAudit.Data.Outcome
set_option autoImplicit false

/-! ## The cut into batches -/

section Batches
variable {β : Type} {size : Nat}

theorem lt_batches_length_iff (h : 0 < size) (xs : List β) (k : Nat) :
    k < (batches size xs).length ↔ k * size < xs.length := by
  induction k generalizing xs with
  | zero =>
    rw [Nat.zero_mul]
    cases xs with
    | nil => simp [batches]
    | cons x xs =>
      rw [batches, dif_neg (by simp only [reduceCtorEq, false_or]; omega)]
      simp
  | succ k ih =>
    rw [Nat.succ_mul]
    by_cases hnil : xs = []
    · subst hnil
      simp [batches]
    · rw [batches, dif_neg (by simp only [hnil, false_or]; omega), List.length_cons,
        Nat.succ_lt_succ_iff, ih, List.length_drop]
      omega

theorem batches_length (h : 0 < size) (xs : List β) :
    (batches size xs).length = xs.length ⌈/⌉ size := by
  refine eq_of_forall_lt_iff fun k => ?_
  rw [lt_batches_length_iff h, ← not_le, ← not_le, ceilDiv_le_iff_le_mul h, Nat.mul_comm]

theorem size_of_batches_before (h : 0 < size) (xs : List β) {k : Nat}
    (hk : k < (batches size xs).length) :
    ((batches size xs).take k).flatten.length = k * size := by
  induction k generalizing xs with
  | zero => rw [List.take_zero, List.flatten_nil, List.length_nil, Nat.zero_mul]
  | succ k ih =>
    have hsize := (lt_batches_length_iff h xs (k + 1)).mp hk
    rw [Nat.succ_mul] at hsize
    have hcut : batches size xs = xs.take size :: batches size (xs.drop size) := by
      rw [batches, dif_neg (by rw [← List.length_eq_zero_iff]; omega)]
    rw [hcut, List.length_cons, Nat.succ_lt_succ_iff] at hk
    rw [hcut, List.take_succ_cons, List.flatten_cons, List.length_append, ih _ hk,
      List.length_take_of_le (by omega), Nat.succ_mul, Nat.add_comm]

theorem batches_of_size {given : Value} (hgiven : given.number?.bind Number.toInt? = some (size : Int))
    (h : 0 < size) (xs : List β) : batchesOf given xs = .ok (batches size xs) := by
  have hne : (size : Int) ≠ 0 := by omega
  unfold batchesOf
  rw [hgiven]
  change (if (size : Int) = 0 then (throw .wrongValue : Except Accident (List (List β)))
    else return batches (size : Int).toNat xs) = _
  rw [if_neg hne, Int.toNat_natCast]
  rfl

end Batches

/-! ## The count -/

/-- A count is cancelled by the first question that is answered so: by then the batches before it
have been counted, and no others. -/
theorem count_batches_cancelled {β : Type} {count : List β → Nat} {cancel : Nat → Bool}
    {total asked done acc k : Nat} {parts : List (List β)} (hk : k < parts.length)
    (hcancel : cancel (asked + k) = true) (hbefore : ∀ j < k, cancel (asked + j) = false) :
    countBatches count cancel total asked done acc parts =
      .error (.cancelled operation (done + (parts.take k).flatten.length) total) := by
  -- Each batch moves on the next question and the splits counted so far.
  induction parts generalizing asked done acc k with
  | nil => cases hk
  | cons batch rest ih =>
    cases k with
    | zero =>
      rw [Nat.add_zero] at hcancel
      rw [countBatches, if_pos hcancel]
      rfl
    | succ k =>
      have hfirst : cancel asked = false := hbefore 0 (Nat.succ_pos k)
      have hnext : ∀ i, asked + 1 + i = asked + (i + 1) := fun i => by omega
      rw [countBatches, hfirst, if_neg Bool.false_ne_true,
        ih (Nat.lt_of_succ_lt_succ hk) (by rwa [hnext])
          (fun j hj => by rw [hnext]; exact hbefore (j + 1) (Nat.succ_lt_succ hj)),
        List.take_succ_cons, List.flatten_cons, List.length_append, Nat.cast_add, Nat.cast_add,
        Int.add_assoc]

/-! ## Workers -/

theorem check_workers_of_count (workers : Option Int) (parts : Nat) :
    checkWorkers (workers.map Value.int) parts =
      if (∀ n ∈ workers, 1 ≤ n) ∨ parts = 1 then .ok () else .error .wrongValue := by
  cases workers with
  | none => rw [if_pos (.inl nofun)]; rfl
  | some n =>
    by_cases hparts : parts = 1
    · rw [if_pos (.inr hparts)]
      simp only [Option.map_some, checkWorkers, if_pos hparts]
      rfl
    · have hpositive : (!(Number.int 0).lt (.int n)) = true ↔ ¬ 1 ≤ n := by
        rw [Bool.not_eq_true', Number.int_lt_int, decide_eq_false_iff_not]
        omega
      have hwork : checkWorkers (some (.int n)) parts =
          if (!(Number.int 0).lt (.int n)) = true then .error .wrongValue else .ok () := by
        simp only [checkWorkers, if_neg hparts]
        rfl
      rw [Option.map_some, hwork]
      by_cases hn : 1 ≤ n
      · rw [if_neg (hpositive.not.mpr (not_not_intro hn)), if_pos (.inl fun _ h => by cases h; exact hn)]
      · rw [if_pos (hpositive.mpr hn), if_neg]
        exact not_or_intro (fun h => hn (h n rfl)) hparts

/-! ## The estimate -/

variable {α : Type} [Scalar α] {plan : Plan} {cancel : Nat → Bool} {returns : Grid α}

/-- Returns and settings that an estimate can be made of, with the rows and the splits that they
give. -/
structure Accepted (plan : Plan) (returns : Grid α) (rows : List (List α)) (splits : Splits) :
    Prop where
  rows_eq : checkedRows plan.blocks returns = .ok rows
  splits_eq : plan.splits = .ok splits
  splits_ne : splits.halves ≠ []

theorem estimate_of_refused_workers {rows : List (List α)} {splits : Splits}
    {parts : List (List (List Nat))} {a : Accident} (h : Accepted plan returns rows splits)
    (hparts : batchesOf plan.batchSize splits.halves = .ok parts)
    (hworkers : checkWorkers plan.workers parts.length = .error a) :
    estimate plan cancel returns = .error (.accident a) := by
  unfold estimate
  rw [h.rows_eq, h.splits_eq]
  simp only [bind, Except.bind, Except.mapError, hparts, hworkers]

theorem estimate_of_cancelled {rows : List (List α)} {splits : Splits}
    {parts : List (List (List Nat))} {e : AuditError} (h : Accepted plan returns rows splits)
    (hparts : batchesOf plan.batchSize splits.halves = .ok parts)
    (hworkers : checkWorkers plan.workers parts.length = .ok ())
    (hcount : countBatches (degradedCount (blockCount plan) (rows.length / 2)
      (variantsOf (blockCount plan) rows)) cancel splits.halves.length 0 0 0 parts = .error e) :
    estimate plan cancel returns = .error (.error e) := by
  unfold variantsOf blockCount at hcount
  unfold estimate
  rw [h.rows_eq, h.splits_eq]
  simp only [bind, Except.bind, Except.mapError, hparts, hworkers, hcount]

/-- An estimate in batches of a size, of accepted returns and settings. As many questions are asked as
there are batches. With workers that are accepted, and when none of the questions is answered by
cancelling, all splits are counted as they are at once. Otherwise the first one that is ends the
estimate, and the splits of the batches before it, fewer than all, are told as completed. A number of
workers below one is refused, unless a single batch needs none. -/
theorem estimate_in_batches {rows : List (List α)} {splits : Splits} {size : Nat}
    {workers : Option Int} (h : Accepted plan returns rows splits)
    (hgiven : plan.batchSize.number?.bind Number.toInt? = some (size : Int)) (hsize : 1 ≤ size)
    (hworkers : plan.workers = workers.map Value.int) (cancel : Nat → Bool) :
    let total := splits.halves.length
    let checks := total ⌈/⌉ size
    ((∀ n ∈ workers, 1 ≤ n) ∨ checks = 1 →
      ((∀ k < checks, cancel k = false) →
        estimate plan cancel returns = .ok (told plan rows splits splits.halves)) ∧
      ∀ k < checks, cancel k = true → (∀ j < k, cancel j = false) →
        k * size < total ∧
          estimate plan cancel returns =
            .error (.error (.cancelled operation (k * size : Nat) total))) ∧
    (¬ ((∀ n ∈ workers, 1 ≤ n) ∨ checks = 1) →
      estimate plan cancel returns = .error (.accident .wrongValue)) := by
  intro total checks
  have hparts := batches_of_size hgiven hsize splits.halves
  have hchecks : (batches size splits.halves).length = checks := batches_length hsize _
  have hwork := check_workers_of_count workers checks
  rw [← hworkers, ← hchecks] at hwork
  rw [← hchecks]
  refine ⟨fun hfine => ⟨fun hnever => ?_, fun k hk hcancel hbefore => ?_⟩, fun hfew => ?_⟩
  · rw [if_pos hfine] at hwork
    refine estimate_eq_ok.mpr ⟨rows, splits, _, h.rows_eq, h.splits_eq, hparts, hwork, hnever,
      fun hnone => h.splits_ne (List.eq_nil_of_length_eq_zero hnone), ?_⟩
    rw [batches_flatten hsize]
  · rw [if_pos hfine] at hwork
    refine ⟨(lt_batches_length_iff hsize _ k).mp hk, ?_⟩
    refine estimate_of_cancelled h hparts hwork ?_
    rw [count_batches_cancelled hk (by rwa [Nat.zero_add])
      (fun j hj => by rw [Nat.zero_add]; exact hbefore j hj), size_of_batches_before hsize _ hk, Nat.cast_zero,
      Int.zero_add]
  · rw [if_neg hfew] at hwork
    exact estimate_of_refused_workers h hparts hwork

/-! ## One split at a time -/

/-- Two blocks, one split in a batch, and some workers. -/
def oneByOne (workers : Option Int) : Plan :=
  { twoBlocks with batchSize := .int 1, workers := workers.map Value.int }

def fourReturns : List (List Float) := [[0, 1], [1, 0], [2, 1], [3, 0]]

theorem four_returns_accepted (workers : Option Int) :
    Accepted (oneByOne workers) (.ofRows fourReturns) fourReturns ⟨[[0], [1]], true⟩ := by
  have hwidth : ∀ row ∈ fourReturns, row.length = 2 := by simp [fourReturns]
  have hsplits : twoBlocks.splits.toOption = some ⟨[[0], [1]], true⟩ := by decide +kernel
  exact ⟨(checked_rows_of_rows hwidth).mpr ⟨rfl, by decide, by decide, 2, rfl, by decide, by decide⟩,
    to_option_eq_some.mp hsplits, by decide⟩

theorem one_by_one_size (workers : Option Int) :
    (oneByOne workers).batchSize.number?.bind Number.toInt? = some ((1 : Nat) : Int) :=
  rfl

/-- A question answered by cancelling after the first of two splits, and one that is not asked. -/
theorem four_returns_cancelled :
    Accepted (oneByOne (some 3)) (.ofRows fourReturns) fourReturns ⟨[[0], [1]], true⟩ ∧
      estimate (oneByOne (some 3)) (fun k => k = 1) (.ofRows fourReturns) =
        .error (.error (.cancelled operation 1 2)) ∧
      estimate (oneByOne (some 3)) (fun k => k = 2) (.ofRows fourReturns) =
        .ok (told (oneByOne (some 3)) fourReturns ⟨[[0], [1]], true⟩ [[0], [1]]) := by
  have haccepted := four_returns_accepted (some 3)
  have hworkers : (oneByOne (some 3)).workers = (some 3).map Value.int := rfl
  have hsome : ∀ n ∈ some (3 : Int), 1 ≤ n := by simp
  have hrun := estimate_in_batches haccepted (one_by_one_size _) (Nat.le_refl 1) hworkers
  refine ⟨haccepted, ?_, ?_⟩
  · exact (((hrun fun k => k = 1).1 (.inl hsome)).2 1 (by decide) rfl (by decide)).2
  · exact ((hrun fun k => k = 2).1 (.inl hsome)).1 (by decide)

/-- No workers count no batches: there is no estimate, although nothing cancels. -/
theorem no_workers_refused :
    Accepted (oneByOne (some 0)) (.ofRows fourReturns) fourReturns ⟨[[0], [1]], true⟩ ∧
      estimate (oneByOne (some 0)) (fun _ => false) (.ofRows fourReturns) =
        .error (.accident .wrongValue) := by
  have haccepted := four_returns_accepted (some 0)
  have hparts := batches_of_size (one_by_one_size (some 0)) Nat.one_pos [[0], [1]]
  have htwo : (batches 1 [[0], [1]]).length = 2 := batches_length Nat.one_pos _
  refine ⟨haccepted, estimate_of_refused_workers haccepted hparts ?_⟩
  rw [htwo]
  exact check_workers_of_count (some 0) 2

end BacktestAudit.Statistics.Overfitting
