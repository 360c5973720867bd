import BacktestAudit.Proofs.Statistics.Halves
import BacktestAudit.Proofs.Statistics.Splits
import Mathlib.Data.List.Sort
import Mathlib.Data.List.Sublists

/-!
Splits are balanced: each takes half of the blocks, in ascending order. Up to a number of blocks every
half is there, once and with its complement; beyond it, what the generator chooses are as many
different blocks as a half needs.
-/
namespace BacktestAudit.Statistics.Overfitting
open BacktestAudit.Data BacktestAudit.Data.Outcome BacktestAudit.Decimal
set_option autoImplicit false

/-- Half of some blocks, in ascending order. -/
structure IsHalf (blocks : ℕ) (row : List ℕ) : Prop where
  ascending : row.Pairwise (· < ·)
  size : row.length = blocks / 2
  bound : ∀ b ∈ row, b < blocks

/-- The blocks that a half leaves. -/
def leftBy (blocks : ℕ) (row : List ℕ) : List ℕ :=
  (List.range blocks).filter fun b => decide (b ∉ row)

/-! ## All halves -/

theorem combinations_perm {β : Type} (k : ℕ) (xs : List β) :
    (combinations k xs).Perm (xs.sublistsLen k) := by
  induction xs generalizing k with
  | nil => cases k <;> simp [combinations]
  | cons x xs ih =>
    cases k with
    | zero => simp [combinations]
    | succ k =>
      rw [combinations, List.sublistsLen_succ_cons]
      exact (((ih k).map _).append (ih (k + 1))).trans List.perm_append_comm

theorem combinations_length {β : Type} (k : ℕ) (xs : List β) :
    (combinations k xs).length = xs.length.choose k := by
  rw [(combinations_perm k xs).length_eq, List.length_sublistsLen]

theorem combinations_nodup {β : Type} {xs : List β} (h : xs.Nodup) (k : ℕ) :
    (combinations k xs).Nodup :=
  (combinations_perm k xs).nodup_iff.mpr (List.nodup_sublistsLen k h)

theorem sublist_range_iff {row : List ℕ} {n : ℕ} :
    row.Sublist (List.range n) ↔ row.Pairwise (· < ·) ∧ ∀ b ∈ row, b < n := by
  constructor
  · intro h
    exact ⟨List.pairwise_lt_range.sublist h, fun b hb => List.mem_range.mp (h.subset hb)⟩
  · rintro ⟨hascending, hbound⟩
    have hnodup : row.Nodup := hascending.imp fun hlt => hlt.ne
    have hsubperm := hnodup.subperm fun b hb => List.mem_range.mpr (hbound b hb)
    exact List.sublist_of_subperm_of_pairwise hsubperm hascending List.pairwise_lt_range

theorem mem_halves_iff {row : List ℕ} {n : ℕ} :
    row ∈ combinations (n / 2) (List.range n) ↔ IsHalf n row := by
  rw [(combinations_perm _ _).mem_iff, List.mem_sublistsLen, sublist_range_iff]
  constructor
  · rintro ⟨⟨hascending, hbound⟩, hsize⟩
    exact ⟨hascending, hsize, hbound⟩
  · rintro ⟨hascending, hsize, hbound⟩
    exact ⟨⟨hascending, hbound⟩, hsize⟩

theorem is_half_left_by {row : List ℕ} {n : ℕ} (heven : Even n) (h : IsHalf n row) :
    IsHalf n (leftBy n row) := by
  obtain ⟨hascending, hsize, hbound⟩ := h
  have hnodup : row.Nodup := hascending.imp fun hlt => hlt.ne
  refine ⟨List.pairwise_lt_range.filter _, ?_, fun b hb => ?_⟩
  · rw [leftBy, ← List.countP_eq_length_filter, count_of_others hnodup hbound, hsize]
    obtain ⟨k, rfl⟩ := heven
    omega
  · exact List.mem_range.mp (List.mem_filter.mp hb).1

/-! ## Chosen halves -/

namespace Generator

variable {g : Generator}

/-- The half of an output that is kept back is one word. -/
def Sound (g : Generator) : Prop := ∀ high ∈ g.saved, high < wordCount

theorem sound_of_words (entropy : List ℕ) : (ofWords entropy).Sound := by
  rintro high ⟨⟩

theorem next64_lt (h : g.Sound) : g.next64.1 < pairCount ∧ g.next64.2.Sound := by
  -- With the generator in its parts, only what it kept back is compared, not its states.
  obtain ⟨state, increment, saved⟩ := g
  have hsaved : (next64 ⟨state, increment, saved⟩).2.saved = saved := rfl
  refine ⟨Nat.mod_lt _ (by decide), ?_⟩
  unfold Sound at *
  rwa [hsaved]

theorem next32_lt (h : g.Sound) : g.next32.1 < wordCount ∧ g.next32.2.Sound := by
  unfold next32
  split
  · next high hsaved => exact ⟨h high hsaved, nofun⟩
  · refine ⟨Nat.mod_lt _ (by decide), ?_⟩
    rintro high ⟨⟩
    exact Nat.div_lt_of_lt_mul (next64_lt h).1

section Bounds

variable {words : ℕ} {next : Generator → ℕ × Generator}

/-- A source of numbers below a bound leaves a sound generator sound. -/
def Below (words : ℕ) (next : Generator → ℕ × Generator) : Prop :=
  ∀ g : Generator, g.Sound → (next g).1 < words ∧ (next g).2.Sound

theorem redraw_lt (hnext : Below words next) {count threshold product : ℕ} (fuel : ℕ)
    (hcount : 0 < count) (h : g.Sound) (hproduct : product < words * count) :
    (redraw words next count threshold fuel product g).1 < words * count ∧
      (redraw words next count threshold fuel product g).2.Sound := by
  induction fuel generalizing product g with
  | zero => exact ⟨hproduct, h⟩
  | succ fuel ih =>
    rw [redraw]
    split
    · obtain ⟨hlt, hsound⟩ := hnext g h
      exact ih hsound (Nat.mul_lt_mul_of_pos_right hlt hcount)
    · exact ⟨hproduct, h⟩

theorem scaled_le (hnext : Below words next) (bound : ℕ) (h : g.Sound) :
    (scaled words next g bound).1 ≤ bound ∧ (scaled words next g bound).2.Sound := by
  obtain ⟨hlt, hsound⟩ := hnext g h
  have hproduct := Nat.mul_lt_mul_of_pos_right hlt (Nat.succ_pos bound)
  obtain ⟨hproduct, hsound⟩ := @redraw_lt _ _ _ hnext (bound + 1)
    ((words - (bound + 1)) % (bound + 1)) _ maxRedraws (Nat.succ_pos bound) hsound hproduct
  exact ⟨Nat.le_of_lt_succ (Nat.div_lt_of_lt_mul hproduct), hsound⟩

end Bounds

theorem bounded_le (bound : ℕ) (h : g.Sound) :
    (g.bounded bound).1 ≤ bound ∧ (g.bounded bound).2.Sound := by
  unfold bounded
  split
  · exact ⟨Nat.zero_le _, h⟩
  · split
    · exact scaled_le (fun _ => next32_lt) bound h
    · exact scaled_le (fun _ => next64_lt) bound h

/-- Different numbers below a bound, drawn by a generator that can go on. -/
structure Drawn (bound : ℕ) (acc : List ℕ × Generator) : Prop where
  distinct : acc.1.Nodup
  below : ∀ v ∈ acc.1, v < bound
  sound : acc.2.Sound

theorem draw_keeps {bound : ℕ} {acc : List ℕ × Generator} (h : Drawn bound acc) :
    Drawn (bound + 1) (draw acc bound) ∧ (draw acc bound).1.length = acc.1.length + 1 := by
  obtain ⟨hdistinct, hbelow, hsound⟩ := h
  obtain ⟨hle, hsound⟩ := bounded_le bound hsound
  have hbefore : ∀ v ∈ acc.1, v < bound + 1 := fun v hv => Nat.lt_succ_of_lt (hbelow v hv)
  unfold draw
  dsimp only
  split
  · -- The bound is new, because all that was drawn before lies below it.
    have hnew : bound ∉ acc.1 := fun hmem => lt_irrefl _ (hbelow bound hmem)
    exact ⟨⟨List.nodup_cons.mpr ⟨hnew, hdistinct⟩,
      List.forall_mem_cons.mpr ⟨Nat.lt_succ_self _, hbefore⟩, hsound⟩, rfl⟩
  · next hnew =>
    exact ⟨⟨List.nodup_cons.mpr ⟨hnew, hdistinct⟩,
      List.forall_mem_cons.mpr ⟨Nat.lt_succ_of_le hle, hbefore⟩, hsound⟩, rfl⟩

theorem draws_keep {bound : ℕ} {acc : List ℕ × Generator} (k : ℕ) (h : Drawn bound acc) :
    Drawn (bound + k) ((List.range' bound k).foldl draw acc) ∧
      ((List.range' bound k).foldl draw acc).1.length = acc.1.length + k := by
  induction k generalizing bound acc with
  | zero => exact ⟨h, rfl⟩
  | succ k ih =>
    obtain ⟨hdrawn, hlength⟩ := draw_keeps h
    obtain ⟨hdrawn', hlength'⟩ := ih hdrawn
    rw [List.range'_succ, List.foldl_cons]
    rw [Nat.add_right_comm] at hdrawn'
    exact ⟨hdrawn', by omega⟩

theorem exchange_perm (place : ℕ) {acc : Array ℕ × Generator} (h : acc.2.Sound) :
    (exchange acc place).1.toList.Perm acc.1.toList ∧ (exchange acc place).2.Sound := by
  refine ⟨?_, (bounded_le place h).2⟩
  unfold exchange Array.swapIfInBounds
  dsimp only
  split
  · split
    · exact (Array.swap_perm ..).toList
    · exact List.Perm.refl _
  · exact List.Perm.refl _

theorem exchanges_perm (places : List ℕ) {acc : Array ℕ × Generator} (h : acc.2.Sound) :
    (places.foldl exchange acc).1.toList.Perm acc.1.toList ∧
      (places.foldl exchange acc).2.Sound := by
  induction places generalizing acc with
  | nil => exact ⟨List.Perm.refl _, h⟩
  | cons place places ih =>
    obtain ⟨hperm, hsound⟩ := exchange_perm place h
    obtain ⟨hperm', hsound'⟩ := ih hsound
    exact ⟨hperm'.trans hperm, hsound'⟩

theorem shuffle_perm (numbers : Array ℕ) (first : ℕ) (h : g.Sound) :
    (shuffleDown numbers first g).1.toList.Perm numbers.toList ∧
      (shuffleDown numbers first g).2.Sound :=
  exchanges_perm _ h

theorem choose_drawn {n k : ℕ} (hk : k ≤ n) (h : g.Sound) :
    Drawn n (g.choose n k) ∧ (g.choose n k).1.length = k := by
  unfold choose
  split
  · obtain ⟨hperm, hsound⟩ := shuffle_perm (Array.range n) (max (n - k) 1) h
    rw [Array.toList_range] at hperm
    have hlength := hperm.length_eq
    refine ⟨⟨?_, fun v hv => ?_, hsound⟩, ?_⟩
    · exact (hperm.nodup_iff.mpr List.nodup_range).sublist (List.drop_sublist _ _)
    · exact List.mem_range.mp (hperm.mem_iff.mp (List.mem_of_mem_drop hv))
    · rw [List.length_range] at hlength
      dsimp only
      rw [List.length_drop, hlength]
      omega
  · have hstart : Drawn (n - k) ([], g) := ⟨List.nodup_nil, nofun, h⟩
    obtain ⟨⟨hdistinct, hbelow, hsound⟩, hlength⟩ := draws_keep k hstart
    rw [Nat.sub_add_cancel hk] at hbelow
    rw [List.length_nil, Nat.zero_add] at hlength
    obtain ⟨hperm, hsound⟩ := shuffle_perm
      ((List.range' (n - k) k).foldl draw ([], g)).1.reverse.toArray 1 hsound
    have hperm := hperm.trans (List.reverse_perm _)
    exact ⟨⟨hperm.nodup_iff.mpr hdistinct, fun v hv => hbelow v (hperm.mem_iff.mp hv), hsound⟩,
      hperm.length_eq.trans hlength⟩

end Generator

theorem is_half_of_sampled {n count : ℕ} {g : Generator} (h : g.Sound) :
    ∀ row ∈ sampled n (n / 2) count g, IsHalf n row := by
  induction count generalizing g with
  | zero => nofun
  | succ count ih =>
    obtain ⟨⟨hdistinct, hbelow, hsound⟩, hlength⟩ :=
      Generator.choose_drawn (Nat.div_le_self n 2) h
    rw [sampled]
    refine List.forall_mem_cons.mpr ⟨?_, ih hsound⟩
    have hperm := List.mergeSort_perm (g.choose n (n / 2)).1 (· ≤ ·)
    have hsorted := List.pairwise_mergeSort' (· ≤ ·) (g.choose n (n / 2)).1
    exact {
      ascending := (hsorted.and (hperm.nodup_iff.mpr hdistinct)).imp fun h => lt_of_le_of_ne h.1 h.2
      size := hperm.length_eq.trans hlength
      bound := fun b hb => hbelow b (hperm.mem_iff.mp hb) }

/-! ## Plans of integers -/

/-- A plan whose fields are integers. -/
def integerPlan (blocks most sampled seed : ℤ) : SplitPlan :=
  ⟨.int blocks, .int most, .int sampled, .int seed⟩

/-- How many splits of some blocks a sample has: as many as are allowed, or all. -/
def sampledRows (blocks : ℕ) (allowed : ℤ) : ℕ := min allowed.toNat (blocks.choose (blocks / 2))

theorem sample_size_of_integers {n : ℕ} {most allowed seed : ℤ} (h : 1 ≤ allowed) :
    (integerPlan n most allowed seed).sampleSize (binomial n (n / 2)) =
      .ok (sampledRows n allowed) := by
  rw [binomial_eq_choose (Nat.div_le_self n 2)]
  generalize hall : n.choose (n / 2) = all
  have hsize : (integerPlan n most allowed seed).sampleSize all =
      if (Number.int all).lt (.int allowed) then .ok all else SplitPlan.natOf allowed := rfl
  simp only [hsize, Number.int_lt_int, decide_eq_true_eq, sampledRows, hall]
  split
  · rw [min_eq_right (by omega)]
  · rw [SplitPlan.natOf, if_neg (by omega), min_eq_left (by omega)]

theorem splits_of_integers {n : ℕ} {most allowed seed : ℤ} (hallowed : 1 ≤ allowed)
    (hseed : 0 ≤ seed) : (integerPlan n most allowed seed).splits =
      if (n : ℤ) ≤ most then .ok ⟨combinations (n / 2) (List.range n), true⟩
      else if SplitPlan.isAddressable (sampledRows n allowed) (n / 2) then
        .ok ⟨sampled n (n / 2) (sampledRows n allowed) (.ofWords (Seed.wordsOf seed.toNat)), false⟩
      else .error .wrongValue := by
  have hle := Number.int_le_int n most
  have hexact : (integerPlan n most allowed seed).isExact = .ok (decide ((n : ℤ) ≤ most)) :=
    is_exact_eq_ok.mpr ⟨.int most, rfl, hle⟩
  have hwords : seedOf (.int seed) = .ok (Seed.wordsOf seed.toNat) := if_neg (not_lt.mpr hseed)
  have hsize := @sample_size_of_integers n most allowed seed hallowed
  by_cases hmost : (n : ℤ) ≤ most
  · rw [if_pos hmost]
    exact splits_eq_ok.mpr ⟨.int most, rfl, n, rfl, .inl ⟨hle.trans (decide_eq_true hmost), rfl⟩⟩
  · rw [if_neg hmost]
    split
    · next hfits =>
      exact splits_eq_ok.mpr ⟨.int most, rfl, n, rfl,
        .inr ⟨hle.trans (decide_eq_false hmost), _, hwords, _, hsize, hfits, rfl⟩⟩
    · next hfits =>
      unfold SplitPlan.splits
      refine bind_eq_error.mpr (.inr ⟨false, hexact.trans (by rw [decide_eq_false hmost]), ?_⟩)
      rw [if_neg Bool.false_ne_true]
      refine bind_eq_error.mpr (.inr ⟨_, hwords, bind_eq_error.mpr (.inr ⟨n, rfl, ?_⟩)⟩)
      refine bind_eq_error.mpr (.inr ⟨n, nat_of_eq_ok.mpr rfl, ?_⟩)
      refine bind_eq_error.mpr (.inr ⟨_, hsize, ?_⟩)
      rw [Bool.not_eq_true] at hfits
      rw [hfits]
      rfl

/-! ## Splits -/

/-- All splits of an even number of blocks are halves. Up to a number of blocks they are all halves
there are, each once, so that the complement of each is among them; beyond it there are as many as are
allowed, or as many as there are halves if that is less. Only a sample with more rows than an array can
hold is refused. -/
theorem splits_balanced {n : ℕ} {most allowed seed : ℤ} (heven : Even n) (hallowed : 1 ≤ allowed)
    (hseed : 0 ≤ seed) :
    ((n : ℤ) ≤ most → ∃ s, (integerPlan n most allowed seed).splits = .ok s ∧
      s.exhaustive = true ∧ s.halves.length = n.choose (n / 2) ∧ s.halves.Nodup ∧
      (∀ row, row ∈ s.halves ↔ IsHalf n row) ∧ ∀ row ∈ s.halves, leftBy n row ∈ s.halves) ∧
    (most < n → 8 * sampledRows n allowed * (n / 2) < 2 ^ 63 →
      ∃ s, (integerPlan n most allowed seed).splits = .ok s ∧ s.exhaustive = false ∧
        s.halves.length = sampledRows n allowed ∧ ∀ row ∈ s.halves, IsHalf n row) ∧
    (most < n → 2 ^ 63 ≤ 8 * sampledRows n allowed * (n / 2) →
      (integerPlan n most allowed seed).splits = .error .wrongValue) := by
  have hplan := @splits_of_integers n most allowed seed hallowed hseed
  have hfits : SplitPlan.isAddressable (sampledRows n allowed) (n / 2) =
      decide (8 * sampledRows n allowed * (n / 2) < 2 ^ 63) := rfl
  refine ⟨fun hmost => ?_, fun hmost hsmall => ?_, fun hmost hlarge => ?_⟩
  · rw [if_pos hmost] at hplan
    refine ⟨_, hplan, rfl, ?_, ?_, fun row => mem_halves_iff, fun row hrow => ?_⟩
    · rw [combinations_length, List.length_range]
    · exact combinations_nodup List.nodup_range _
    · exact mem_halves_iff.mpr (is_half_left_by heven (mem_halves_iff.mp hrow))
  · rw [if_neg (not_le.mpr hmost), if_pos (hfits.trans (decide_eq_true hsmall))] at hplan
    refine ⟨_, hplan, rfl, sampled_length .., ?_⟩
    exact is_half_of_sampled (Generator.sound_of_words _)
  · have hrefused : ¬ SplitPlan.isAddressable (sampledRows n allowed) (n / 2) = true := by
      rw [hfits, decide_eq_true_eq]
      exact not_lt.mpr hlarge
    rwa [if_neg (not_le.mpr hmost), if_neg hrefused] at hplan

/-- Four blocks, once with all splits and once with three of them. -/
theorem splits_of_four_balanced :
    (∃ s, (integerPlan 4 20 2000 42).splits = .ok s ∧ s.halves.length = 6 ∧
      [0, 3] ∈ s.halves ∧ [1, 2] ∈ s.halves) ∧
    ∃ s, (integerPlan 4 2 3 42).splits = .ok s ∧ s.halves.length = 3 ∧
      ∀ row ∈ s.halves, IsHalf 4 row := by
  have hall := @splits_balanced 4 20 2000 42 (by decide) (by decide) (by decide)
  have hsome := @splits_balanced 4 2 3 42 (by decide) (by decide) (by decide)
  constructor
  · obtain ⟨s, hs, -, hlength, -, hmem, hleft⟩ := hall.1 (by decide)
    have houter : [0, 3] ∈ s.halves := (hmem _).mpr ⟨by decide, rfl, by decide⟩
    exact ⟨s, hs, hlength, houter, hleft _ houter⟩
  · obtain ⟨s, hs, -, hlength, hhalf⟩ := hsome.2.1 (by decide) (by decide)
    exact ⟨s, hs, hlength, hhalf⟩

/-- No splits are made where the sample would not fit into an array. -/
theorem oversized_sample_refused :
    (integerPlan 100 20 (10 ^ 18) 42).splits = .error .wrongValue ∧ Even 100 ∧
      ¬ ∃ s, (integerPlan 100 20 (10 ^ 18) 42).splits = .ok s ∧
        s.halves.length = min (10 ^ 18) (Nat.choose 100 50) := by
  have hrefused : (integerPlan 100 20 (10 ^ 18) 42).splits = .error .wrongValue := rfl
  refine ⟨hrefused, by decide, ?_⟩
  rintro ⟨s, hs, -⟩
  rw [hrefused] at hs
  cases hs

end BacktestAudit.Statistics.Overfitting
