import BacktestAudit.Statistics.Overfitting.Moments
import Mathlib.Data.List.Basic

/-!
What is kept of a list when the places to keep are told. Keeping whole blocks of a list comes to
keeping the items whose places lie in those blocks.
-/
namespace BacktestAudit.Statistics.Overfitting
set_option autoImplicit false

variable {β γ : Type}

/-- The items at the places to keep. -/
def kept (p : ℕ → Bool) (xs : List β) : List β :=
  (xs.zipIdx.filter fun e => p e.2).map Prod.fst

@[simp] theorem kept_nil (p : ℕ → Bool) : kept p ([] : List β) = [] := rfl

theorem kept_cons (p : ℕ → Bool) (x : β) (xs : List β) :
    kept p (x :: xs) =
      (if p 0 then [x] else []) ++ kept (fun i => p (i + 1)) xs := by
  unfold kept
  rw [List.zipIdx_cons', List.filter_cons, List.filter_map]
  cases p 0 <;> simp [Function.comp_def]

theorem kept_append (p : ℕ → Bool) (xs ys : List β) :
    kept p (xs ++ ys) = kept p xs ++ kept (fun i => p (i + xs.length)) ys := by
  induction xs generalizing p with
  | nil => rfl
  | cons x xs ih =>
    rw [List.cons_append, kept_cons, kept_cons, ih, List.append_assoc]
    rfl

theorem kept_sublist (p : ℕ → Bool) (xs : List β) : (kept p xs).Sublist xs := by
  have h := (List.filter_sublist (l := xs.zipIdx) (p := fun e => p e.2)).map Prod.fst
  rwa [List.zipIdx_map_fst] at h

theorem kept_map (p : ℕ → Bool) (f : β → γ) (xs : List β) :
    kept p (xs.map f) = (kept p xs).map f := by
  induction xs generalizing p with
  | nil => rfl
  | cons x xs ih =>
    rw [List.map_cons, kept_cons, kept_cons, ih, List.map_append]
    cases p 0 <;> rfl

theorem kept_congr {p q : ℕ → Bool} {xs : List β} (h : ∀ i < xs.length, p i = q i) :
    kept p xs = kept q xs := by
  induction xs generalizing p q with
  | nil => rfl
  | cons x xs ih =>
    rw [kept_cons, kept_cons, h 0 (by simp),
      ih fun i hi => h (i + 1) (by simpa using hi)]

theorem kept_const (keep : Bool) (xs : List β) :
    kept (fun _ => keep) xs = if keep then xs else [] := by
  induction xs with
  | nil => cases keep <;> rfl
  | cons x xs ih =>
    rw [kept_cons, ih]
    cases keep <;> rfl

theorem kept_length (p : ℕ → Bool) (xs : List β) :
    (kept p xs).length = (List.range xs.length).countP p := by
  induction xs generalizing p with
  | nil => rfl
  | cons x xs ih =>
    rw [kept_cons, List.length_append, ih, List.length_cons, List.range_succ_eq_map,
      List.countP_cons, List.countP_map, Nat.add_comm]
    cases p 0 <;> rfl

/-! ## Blocks -/

theorem pieces_length (length count : ℕ) (xs : List β) : (pieces length count xs).length = count := by
  induction count generalizing xs with
  | zero => rfl
  | succ count ih => rw [pieces, List.length_cons, ih]

theorem pieces_map (f : β → γ) (length count : ℕ) (xs : List β) :
    pieces length count (xs.map f) = (pieces length count xs).map (List.map f) := by
  induction count generalizing xs with
  | zero => rfl
  | succ count ih => rw [pieces, pieces, ← List.map_take, ← List.map_drop, ih, List.map_cons]

theorem length_of_mem_pieces {length count : ℕ} {xs part : List β}
    (h : xs.length = count * length) (hpart : part ∈ pieces length count xs) :
    part.length = length := by
  induction count generalizing xs with
  | zero => cases hpart
  | succ count ih =>
    rw [Nat.succ_mul] at h
    rw [pieces, List.mem_cons] at hpart
    rcases hpart with rfl | hpart
    · rw [List.length_take]
      omega
    · refine ih ?_ hpart
      rw [List.length_drop]
      omega

theorem kept_pieces_flatten (p : ℕ → Bool) {length count : ℕ} {xs : List β} (hpos : 0 < length)
    (h : xs.length = count * length) :
    (kept p (pieces length count xs)).flatten = kept (fun i => p (i / length)) xs := by
  induction count generalizing p xs with
  | zero =>
    obtain rfl : xs = [] := by simpa using h
    rfl
  | succ count ih =>
    have htake : (xs.take length).length = length := by
      rw [List.length_take, h, Nat.succ_mul]
      omega
    have hdrop : (xs.drop length).length = count * length := by
      rw [List.length_drop, h, Nat.succ_mul]
      omega
    have hfront : kept (fun i => p (i / length)) (xs.take length) =
        if p 0 then xs.take length else [] := by
      rw [← kept_const]
      refine kept_congr fun i hi => ?_
      rw [Nat.div_eq_of_lt (by omega)]
    have hback : (fun i => p ((i + (xs.take length).length) / length)) =
        fun i => p (i / length + 1) := by
      funext i
      rw [htake, Nat.add_div_right _ hpos]
    conv_rhs => rw [← List.take_append_drop length xs, kept_append, hfront, hback]
    rw [pieces, kept_cons, List.flatten_append, ih _ hdrop]
    cases p 0 <;> simp

theorem flatten_pieces {length count : ℕ} {xs : List β} (hpos : 0 < length)
    (h : xs.length = count * length) : (pieces length count xs).flatten = xs := by
  simpa [kept_const] using kept_pieces_flatten (fun _ => true) hpos h

end BacktestAudit.Statistics.Overfitting
