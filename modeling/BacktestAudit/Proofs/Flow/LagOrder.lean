import BacktestAudit.Flow.Lag
import Mathlib.Order.Defs.Unbundled

/-!
The order of lags: negative ones, the unknown one, the others. It is total, and reading with a shift
respects it. A combination of lags is the least of them, so it is told by which lags there are: it
makes no difference in what order they come, how often each of them occurs, and how they are grouped.
-/
namespace BacktestAudit.Flow.Lag
set_option autoImplicit false

/-! ## The order -/

theorem le_refl (a : Lag) : le a a = true := by
  cases a <;> simp [le]

theorem le_trans {a b c : Lag} (hab : le a b = true) (hbc : le b c = true) : le a c = true := by
  cases a <;> cases b <;> cases c <;> simp only [le, decide_eq_true_eq] at * <;> omega

theorem le_total (a b : Lag) : le a b = true ∨ le b a = true := by
  cases a <;> cases b <;> simp only [le, decide_eq_true_eq, true_or] <;> omega

theorem le_antisymm {a b : Lag} (hab : le a b = true) (hba : le b a = true) : a = b := by
  cases a <;> cases b <;> simp only [le, decide_eq_true_eq, reduceCtorEq, Option.some.injEq] at * <;>
    omega

instance : IsLinearOrder Lag fun a b => le a b = true where
  refl := le_refl
  trans _ _ _ := le_trans
  antisymm _ _ := le_antisymm
  total := le_total

/-! ## Shifts respect the order -/

theorem shifted_mono {a b : Lag} (shift : Option Int) (h : le a b = true) :
    le (shifted a shift) (shifted b shift) = true := by
  cases shift with
  | none => exact le_refl _
  | some k =>
    by_cases hk : k = 0
    · -- A shift by nothing changes no lag.
      subst hk
      cases a <;> cases b <;> simpa [shifted, unknown] using h
    · cases a <;> cases b <;> simp only [shifted, hk, if_false, le, decide_eq_true_eq] at * <;> omega

theorem shifted_mono_right (a : Lag) {k l : Int} (h : k ≤ l) :
    le (shifted a (some k)) (shifted a (some l)) = true := by
  cases a with
  | none =>
    by_cases hk : k = 0 <;> by_cases hl : l = 0 <;>
      simp only [shifted, hk, hl, if_true, if_false, le, unknown, decide_eq_true_eq] <;> omega
  | some v =>
    simp only [shifted, le, decide_eq_true_eq]
    omega

/-! ## Combinations are least -/

theorem least_eq_none {ns : List Int} : least ns = none ↔ ns = [] := by
  cases ns with
  | nil => simp [least]
  | cons n ns =>
    cases h : least ns <;> simp [least, h]

theorem least_mem {ns : List Int} {m : Int} (h : least ns = some m) : m ∈ ns := by
  induction ns generalizing m with
  | nil => simp [least] at h
  | cons n ns ih =>
    cases hl : least ns with
    | none =>
      simp only [least, hl, Option.some.injEq] at h
      simp [h]
    | some k =>
      simp only [least, hl, Option.some.injEq] at h
      have hk := ih hl
      rcases Int.le_total n k with hnk | hnk
      · rw [← h, Int.min_eq_left hnk]
        exact List.mem_cons_self ..
      · rw [← h, Int.min_eq_right hnk]
        exact List.mem_cons_of_mem n hk

theorem least_le {ns : List Int} {m n : Int} (h : least ns = some m) (hn : n ∈ ns) : m ≤ n := by
  induction ns generalizing m with
  | nil => simp at hn
  | cons k ns ih =>
    cases hl : least ns with
    | none =>
      have hnil := least_eq_none.mp hl
      simp only [least, hl, Option.some.injEq] at h
      rw [hnil, List.mem_singleton] at hn
      omega
    | some j =>
      simp only [least, hl, Option.some.injEq] at h
      rcases List.mem_cons.mp hn with rfl | hn
      · omega
      · have := ih hl hn
        omega

theorem mem_known {lags : List Lag} {n : Int} : n ∈ known lags ↔ some n ∈ lags := by
  simp [known]

theorem mem_negative {lags : List Lag} {n : Int} :
    n ∈ (known lags).filter (· < 0) ↔ some n ∈ lags ∧ n < 0 := by
  simp [mem_known]

theorem combine_mem {lags : List Lag} (hne : lags ≠ []) : combine lags ∈ lags := by
  unfold combine
  cases hneg : least ((known lags).filter (· < 0)) with
  | some n => exact (mem_negative.mp (least_mem hneg)).1
  | none =>
    have hempty : lags.isEmpty = false := by simpa using hne
    by_cases hany : lags.any (·.isNone) = true
    · simp only [hempty, hany, Bool.or_true, if_true]
      obtain ⟨a, ha, hnone⟩ := List.any_eq_true.mp hany
      rw [Option.isNone_iff_eq_none.mp hnone] at ha
      exact ha
    · simp only [hempty, hany, Bool.or_self, Bool.false_eq_true, if_false]
      -- All lags are known, and there is at least one of them.
      cases hl : least (known lags) with
      | some n => exact mem_known.mp (least_mem hl)
      | none =>
        obtain ⟨a, ha⟩ := List.exists_mem_of_ne_nil lags hne
        cases a with
        | none => exact absurd (List.any_eq_true.mpr ⟨none, ha, rfl⟩) hany
        | some n =>
          have hn := mem_known.mpr ha
          rw [least_eq_none.mp hl] at hn
          simp at hn

theorem combine_le {lags : List Lag} {a : Lag} (ha : a ∈ lags) : le (combine lags) a = true := by
  have hempty : lags.isEmpty = false := by simpa using List.ne_nil_of_mem ha
  unfold combine
  cases hneg : least ((known lags).filter (· < 0)) with
  | some n =>
    have hn := (mem_negative.mp (least_mem hneg)).2
    cases a with
    | none => simpa [le] using hn
    | some m =>
      simp only [le, decide_eq_true_eq]
      by_cases hm : m < 0
      · exact least_le hneg (mem_negative.mpr ⟨ha, hm⟩)
      · omega
  | none =>
    have hnil := least_eq_none.mp hneg
    have hpos : ∀ m, some m ∈ lags → 0 ≤ m := by
      intro m hm
      apply Int.not_lt.mp
      intro hlt
      have hmem := mem_negative.mpr ⟨hm, hlt⟩
      simp [hnil] at hmem
    by_cases hany : lags.any (·.isNone) = true
    · simp only [hempty, hany, Bool.or_true, if_true]
      cases a with
      | none => rfl
      | some m => simpa [le, unknown] using hpos m ha
    · simp only [hempty, hany, Bool.or_self, Bool.false_eq_true, if_false]
      cases a with
      | none => exact absurd (List.any_eq_true.mpr ⟨none, ha, rfl⟩) hany
      | some m =>
        have hm := mem_known.mpr ha
        cases hl : least (known lags) with
        | none =>
          rw [least_eq_none.mp hl] at hm
          simp at hm
        | some n =>
          simp only [le, decide_eq_true_eq]
          exact least_le hl hm

/-- A lag that is one of some lags, and below each of them. -/
structure LeastOf (lags : List Lag) (a : Lag) : Prop where
  mem : a ∈ lags
  below : ∀ b ∈ lags, le a b = true

variable {lags xs ys : List Lag} {a b : Lag}

theorem LeastOf.unique (ha : LeastOf lags a) (hb : LeastOf lags b) : a = b :=
  le_antisymm (ha.below b hb.mem) (hb.below a ha.mem)

theorem least_of_combine (hne : lags ≠ []) : LeastOf lags (combine lags) :=
  ⟨combine_mem hne, fun _ => combine_le⟩

theorem combine_eq_iff (hne : lags ≠ []) : combine lags = a ↔ LeastOf lags a :=
  ⟨fun h => h ▸ least_of_combine hne, (least_of_combine hne).unique⟩

/-! ## Order, repetition, groups -/

theorem combine_congr (h : ∀ a, a ∈ xs ↔ a ∈ ys) : combine xs = combine ys := by
  by_cases hxs : xs = []
  · subst hxs
    have hys : ys = [] := List.eq_nil_iff_forall_not_mem.mpr fun a ha => nomatch (h a).mpr ha
    rw [hys]
  · have hys : ys ≠ [] := by
      obtain ⟨a, ha⟩ := List.exists_mem_of_ne_nil xs hxs
      exact List.ne_nil_of_mem ((h a).mp ha)
    have hleast := least_of_combine hys
    exact (combine_eq_iff hxs).mpr
      ⟨(h _).mpr hleast.mem, fun b hb => hleast.below b ((h b).mp hb)⟩

/-- Some of the lags may be combined first. -/
theorem combine_absorb (hxs : xs ≠ []) : combine (combine xs :: ys) = combine (xs ++ ys) := by
  have hne : xs ++ ys ≠ [] := List.append_ne_nil_of_left_ne_nil hxs ys
  have hfront := least_of_combine hxs
  have hwhole := least_of_combine hne
  rw [combine_eq_iff (List.cons_ne_nil _ _)]
  refine ⟨?_, List.forall_mem_cons.mpr ⟨?_, fun b hb => ?_⟩⟩
  · rcases List.mem_append.mp hwhole.mem with hmem | hmem
    · -- The least lag of all is among those that were combined first, and so the least of them.
      have hsame : LeastOf xs (combine (xs ++ ys)) :=
        ⟨hmem, fun b hb => hwhole.below b (List.mem_append_left ys hb)⟩
      rw [hsame.unique hfront]
      exact List.mem_cons_self ..
    · exact List.mem_cons_of_mem _ hmem
  · exact hwhole.below _ (List.mem_append_left ys hfront.mem)
  · exact hwhole.below b (List.mem_append_right xs hb)

theorem combine_append (hxs : xs ≠ []) (hys : ys ≠ []) :
    combine (xs ++ ys) = combine [combine xs, combine ys] := by
  calc combine (xs ++ ys) = combine (ys ++ xs) :=
        combine_congr fun _ => List.perm_append_comm.mem_iff
    _ = combine (combine ys :: xs) := (combine_absorb hys).symm
    _ = combine (xs ++ [combine ys]) :=
        combine_congr fun _ => (List.perm_append_singleton (combine ys) xs).symm.mem_iff
    _ = combine [combine xs, combine ys] := (combine_absorb hxs).symm

def meet (a b : Lag) : Lag := combine [a, b]

theorem combine_cons (a : Lag) (lags : List Lag) : combine (a :: lags) = lags.foldl meet a := by
  induction lags generalizing a with
  | nil => exact List.mem_singleton.mp (combine_mem (List.cons_ne_nil a []))
  | cons b lags ih =>
    calc combine (a :: b :: lags) = combine (combine [a, b] :: lags) :=
          (combine_absorb (List.cons_ne_nil a [b])).symm
      _ = lags.foldl meet (meet a b) := ih (meet a b)

/-- Lags are in a linear order: the negative ones, the unknown one, the others. The combination of some
lags is the least of them in this order; it is the same for the same lags, in whatever order and
however often each of them occurs; and it is the combination of those of any two groups, and so what
is left when the lags are combined one after the other. -/
theorem combine_is_least_of_any_grouping :
    (IsLinearOrder Lag fun a b => le a b = true) ∧
      (∀ m n : Int, le (some m) (some n) = true ↔ m ≤ n) ∧
      (∀ n : Int, le (some n) unknown = true ↔ n < 0) ∧
      (∀ lags : List Lag, lags ≠ [] → ∀ a, combine lags = a ↔ LeastOf lags a) ∧
      (∀ xs ys : List Lag, (∀ a, a ∈ xs ↔ a ∈ ys) → combine xs = combine ys) ∧
      (∀ xs ys : List Lag, xs ≠ [] → ys ≠ [] →
        combine (xs ++ ys) = combine [combine xs, combine ys]) ∧
      ∀ (a : Lag) (lags : List Lag), combine (a :: lags) = lags.foldl meet a := by
  refine ⟨inferInstance, fun m n => ?_, fun n => ?_, fun _ hne _ => combine_eq_iff hne,
    fun _ _ => combine_congr, fun _ _ => combine_append, combine_cons⟩
  · exact decide_eq_true_iff
  · exact decide_eq_true_iff

/-- The unknown lag stands between a delayed and a future one, in any order and grouping. -/
theorem unknown_between_grouped :
    combine [none, some 0, none] = none ∧ combine [some 0, none] = none ∧
      combine ([some 0, none] ++ [some 2, some (-1)]) = combine [none, some (-1)] ∧
      LeastOf [none, some (-1)] (some (-1)) := by
  obtain ⟨-, -, -, hleast, hsame, hgroups, -⟩ := combine_is_least_of_any_grouping
  have hpair : combine [some 0, none] = none := by decide
  refine ⟨?_, hpair, hgroups [some 0, none] [some 2, some (-1)] (by decide) (by decide), ?_⟩
  · rw [← hpair]
    refine hsame _ _ fun a => ?_
    simp only [List.mem_cons, List.not_mem_nil, or_false]
    exact or_left_comm.trans (or_congr_right or_self_iff)
  · exact (hleast [none, some (-1)] (by decide) (some (-1))).mp (by decide)

end BacktestAudit.Flow.Lag
