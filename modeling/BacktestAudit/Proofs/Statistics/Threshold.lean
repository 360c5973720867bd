import BacktestAudit.Proofs.Decimal.Range
import BacktestAudit.Proofs.Settings.Checked
import BacktestAudit.Statistics.Threshold
import Mathlib.Order.Bounds.Defs

/-!
The bar that accepted brackets set. Every number of trials reaches a bracket, and the threshold of the
greatest one that it reaches is its own; with more trials it does not fall, unless a threshold on the
way is no number and hides what lies behind it.
-/
namespace BacktestAudit.Statistics
open BacktestAudit.Data BacktestAudit.Data.Outcome BacktestAudit.Decimal StatisticsSettings
set_option autoImplicit false

/-! ## The bracket that is reached -/

/-- The numbers of the brackets that a number of trials reaches. -/
def reached (bs : Brackets) (trials : Int) : Set Int := {k | k ∈ bs.map Prod.fst ∧ k ≤ trials}

theorem take_while_reached {bs : Brackets} (h : Ordered bs) (trials : Int) :
    bs.takeWhile (fun b => !(Number.int trials).lt (.int b.1)) =
      bs.filter fun b => decide (b.1 ≤ trials) := by
  induction bs with
  | nil => rfl
  | cons b bs ih =>
    obtain ⟨hfirst, hrest⟩ := List.pairwise_cons.mp h
    rw [List.takeWhile_cons, Number.int_lt_int, List.filter_cons]
    by_cases hb : b.1 ≤ trials
    · simp [hb, ih hrest]
    · have hnone : bs.filter (fun b => decide (b.1 ≤ trials)) = [] := by
        rw [List.filter_eq_nil_iff]
        intro c hc
        have := hfirst c hc
        simp
        omega
      simp [hb, hnone]

/-- Where there is a bracket for a single trial, any number of trials has the threshold of the greatest
bracket that it reaches. -/
theorem required_of_reached {bs : Brackets} (h : Ordered bs) (hone : ∃ b ∈ bs, b.1 = 1) {trials : Int}
    (htrials : 1 ≤ trials) : ∃ k x, (k, x) ∈ bs ∧ IsGreatest (reached bs trials) k ∧
      requiredT bs (.int trials) = .ok x := by
  obtain ⟨one, hmem, hone⟩ := hone
  have hreached : (one ∈ bs.filter fun b => decide (b.1 ≤ trials)) :=
    List.mem_filter.mpr ⟨hmem, decide_eq_true (by omega)⟩
  unfold requiredT
  rw [Number.int_lt_int, decide_eq_false (by omega), take_while_reached h]
  cases hlast : (bs.filter fun b => decide (b.1 ≤ trials)).getLast? with
  | none =>
    rw [List.getLast?_eq_none_iff.mp hlast] at hreached
    cases hreached
  | some last =>
    obtain ⟨k, x⟩ := last
    obtain ⟨front, hsplit⟩ := List.getLast?_eq_some_iff.mp hlast
    have hin : (k, x) ∈ bs.filter fun b => decide (b.1 ≤ trials) := by
      rw [hsplit]
      exact List.mem_append_right _ (List.mem_singleton_self _)
    obtain ⟨hk, hle⟩ := List.mem_filter.mp hin
    refine ⟨k, x, hk, ⟨⟨List.mem_map.mpr ⟨_, hk, rfl⟩, of_decide_eq_true hle⟩, ?_⟩, rfl⟩
    rintro j ⟨hj, hjle⟩
    obtain ⟨b, hb, rfl⟩ := List.mem_map.mp hj
    -- What is reached stands in the order of the brackets, so none is behind the last.
    have hfront := h.filter fun b => decide (b.1 ≤ trials)
    have hbin : b ∈ front ++ [(k, x)] := by
      rw [← hsplit]
      exact List.mem_filter.mpr ⟨hb, decide_eq_true hjle⟩
    rw [hsplit, List.pairwise_append] at hfront
    rcases List.mem_append.mp hbin with hb | hb
    · exact Int.le_of_lt (hfront.2.2 b hb (k, x) (List.mem_singleton_self _))
    · exact Int.le_of_eq (congrArg Prod.fst (List.mem_singleton.mp hb))

/-! ## The bar -/

theorem le_self_of_number {x : Float} (h : Extended.ofFloat x ≠ .nan) :
    (Extended.ofFloat x).le (.ofFloat x) = true :=
  (Extended.le_iff_not_lt h h).mpr (Extended.lt_irrefl _)

theorem le_ratio_iff {a c : Int} {b d : Nat} :
    (Extended.ratio a b).le (.ratio c d) = true ↔ a * d ≤ c * b := by
  simp only [Extended.le, Extended.lt, Extended.same, Bool.or_eq_true, decide_eq_true_eq, beq_iff_eq]
  omega

theorem le_trans_of_float {x z : Extended} {y : Float} (hxy : x.le (.ofFloat y) = true)
    (hyz : (Extended.ofFloat y).le z = true) : x.le z = true := by
  have hpos {num : Int} {den : Nat} := @ratio_pos y num den
  generalize Extended.ofFloat y = middle at hxy hyz hpos
  cases middle with
  | nan => exact absurd rfl (Extended.ne_nan_of_le hxy).2
  | infinite negative =>
    cases negative <;> cases x <;> cases z <;> simp_all [Extended.le, Extended.lt, Extended.same]
  | ratio c d =>
    have hd : 0 < d := hpos rfl
    cases x with
    | nan => exact absurd rfl (Extended.ne_nan_of_le hxy).1
    | infinite negative =>
      cases z <;> simp_all [Extended.le, Extended.lt, Extended.same]
    | ratio a b =>
      cases z with
      | nan => exact absurd rfl (Extended.ne_nan_of_le hyz).2
      | infinite negative => simp_all [Extended.le, Extended.lt, Extended.same]
      | ratio e f =>
        rw [le_ratio_iff] at *
        have hleft : a * d * f ≤ c * b * f := Int.mul_le_mul_of_nonneg_right hxy (Int.natCast_nonneg f)
        have hright : c * f * b ≤ e * d * b := Int.mul_le_mul_of_nonneg_right hyz (Int.natCast_nonneg b)
        refine Int.le_of_mul_le_mul_right ?_ (Int.natCast_pos.mpr hd)
        calc a * f * d = a * d * f := Int.mul_right_comm ..
          _ ≤ c * b * f := hleft
          _ = c * f * b := Int.mul_right_comm ..
          _ ≤ e * d * b := hright
          _ = e * b * d := Int.mul_right_comm ..

theorem le_first_of_monotone {b c : Int × Float} {bs : Brackets}
    (h : isMonotone (b :: c :: bs) = true) (hb : Extended.ofFloat b.2 ≠ .nan)
    (hc : Extended.ofFloat c.2 ≠ .nan) : (Extended.ofFloat b.2).le (.ofFloat c.2) = true := by
  rw [isMonotone, Bool.and_eq_true, Bool.not_eq_true'] at h
  exact (Extended.le_iff_not_lt hc hb).mpr h.1

theorem monotone_tail {b : Int × Float} {bs : Brackets} (h : isMonotone (b :: bs) = true) :
    isMonotone bs = true := by
  cases bs with
  | nil => rfl
  | cons c bs =>
    rw [isMonotone, Bool.and_eq_true] at h
    exact h.2

/-- Thresholds do not fall from one bracket to a later one if those from the one to the other are
numbers. -/
theorem monotone_between {bs : Brackets} (h : Ordered bs) (hmonotone : isMonotone bs = true)
    {b c : Int × Float} (hb : b ∈ bs) (hc : c ∈ bs) (hbc : b.1 ≤ c.1)
    (hnumbers : ∀ d ∈ bs, b.1 ≤ d.1 → d.1 ≤ c.1 → Extended.ofFloat d.2 ≠ .nan) :
    (Extended.ofFloat b.2).le (.ofFloat c.2) = true := by
  induction bs generalizing b with
  | nil => cases hb
  | cons d ds ih =>
    obtain ⟨hfirst, hrest⟩ := List.pairwise_cons.mp h
    have hmonotone' := monotone_tail hmonotone
    rcases List.mem_cons.mp hc with rfl | hcin
    · rcases List.mem_cons.mp hb with rfl | hbin
      · exact le_self_of_number (hnumbers b hb (Int.le_refl _) hbc)
      · have := hfirst b hbin
        omega
    · have hlater : ∀ e ∈ ds, b.1 ≤ e.1 → e.1 ≤ c.1 → Extended.ofFloat e.2 ≠ .nan :=
        fun e he => hnumbers e (List.mem_cons_of_mem _ he)
      rcases List.mem_cons.mp hb with rfl | hbin
      · -- The first bracket is at most the second one, and that is at most the later one.
        cases ds with
        | nil => cases hcin
        | cons e es =>
          have hbe : b.1 ≤ e.1 := Int.le_of_lt (hfirst e (List.mem_cons_self ..))
          have hec : e.1 ≤ c.1 := by
            rcases List.mem_cons.mp hcin with heq | hces
            · exact Int.le_of_eq (congrArg Prod.fst heq.symm)
            · exact Int.le_of_lt ((List.pairwise_cons.mp hrest).1 c hces)
          have hnumber := hnumbers b hb (Int.le_refl _) hbc
          have hnext := hlater e (List.mem_cons_self ..) hbe hec
          refine le_trans_of_float (le_first_of_monotone hmonotone hnumber hnext) ?_
          exact ih hrest hmonotone' (List.mem_cons_self ..) hcin hec
            fun d hd hed hdc => hlater d hd (Int.le_trans hbe hed) hdc
      · exact ih hrest hmonotone' hbin hcin hbc hlater

/-- On accepted settings every number of trials has a threshold, that of the greatest bracket that it
reaches, and with more trials it is no lower, unless a threshold from the bracket of the fewer trials
to that of the more is no number. -/
theorem required_of_accepted {entries : Entries Value} {s : StatisticsSettings}
    (accepted : ofEntries entries = .ok s) {fewer more : Int} (hone : 1 ≤ fewer)
    (hle : fewer ≤ more) :
    ∃ j x k y, (j, x) ∈ s.thresholds ∧ IsGreatest (reached s.thresholds fewer) j ∧
      requiredT s.thresholds (.int fewer) = .ok x ∧
      (k, y) ∈ s.thresholds ∧ IsGreatest (reached s.thresholds more) k ∧
      requiredT s.thresholds (.int more) = .ok y ∧
      ((Extended.ofFloat x).le (.ofFloat y) = true ∨
        ∃ b ∈ s.thresholds, j ≤ b.1 ∧ b.1 ≤ k ∧ Extended.ofFloat b.2 = .nan) := by
  have checked := checked_of_entries accepted
  have ordered := ordered_of_entries accepted
  obtain ⟨j, x, hj, hjgreatest, hx⟩ := required_of_reached ordered checked.single_trial hone
  obtain ⟨k, y, hk, hkgreatest, hy⟩ :=
    required_of_reached ordered checked.single_trial (Int.le_trans hone hle)
  have hjk : j ≤ k := hkgreatest.2 ⟨hjgreatest.1.1, Int.le_trans hjgreatest.1.2 hle⟩
  refine ⟨j, x, k, y, hj, hjgreatest, hx, hk, hkgreatest, hy, ?_⟩
  by_cases hnan : ∃ b ∈ s.thresholds, j ≤ b.1 ∧ b.1 ≤ k ∧ Extended.ofFloat b.2 = .nan
  · exact .inr hnan
  · have hnumbers : ∀ b ∈ s.thresholds, j ≤ b.1 → b.1 ≤ k → Extended.ofFloat b.2 ≠ .nan :=
      fun b hb hjb hbk hb2 => hnan ⟨b, hb, hjb, hbk, hb2⟩
    left
    exact @monotone_between s.thresholds ordered checked.monotone (j, x) (k, y) hj hk hjk hnumbers

/-- Brackets of which two are given for one trial, one lies below it, and two are infinite. -/
def unevenBrackets : Entries Value :=
  [("tstat_thresholds", .table [("1", .float 2), ("100", .float (Binary64.infinity false)),
    ("-5", .float (Binary64.infinity true)), ("01", .float 2.5)])]

theorem uneven_brackets_required :
    ∃ s x y, ofEntries unevenBrackets = .ok s ∧ requiredT s.thresholds (.int 99) = .ok x ∧
      requiredT s.thresholds (.int 100) = .ok y ∧
      (Extended.ofFloat x).le (.ofFloat y) = true := by
  have h : ((ofEntries unevenBrackets).toOption.any fun s =>
      s.thresholds.all fun b => decide (Extended.ofFloat b.2 ≠ .nan)) = true := by
    decide +kernel
  obtain ⟨s, accepted, hnumbers⟩ := to_option_any_iff.mp h
  obtain ⟨j, x, k, y, -, -, hx, -, -, hy, hle⟩ :=
    required_of_accepted accepted (by decide : (1 : Int) ≤ 99) (by decide : (99 : Int) ≤ 100)
  refine ⟨s, x, y, accepted, hx, hy, hle.resolve_right ?_⟩
  rintro ⟨b, hb, -, -, hnan⟩
  exact of_decide_eq_true (List.all_eq_true.mp hnumbers b hb) hnan

/-- Brackets that fall, with no number between the two. -/
def hiddenFall : Entries Value :=
  [("tstat_thresholds", .table [("1", .float 5), ("10", .float Binary64.notNumber),
    ("100", .float 1)])]

/-- Accepted brackets may ask less of more trials. -/
theorem hidden_fall_lowers_bar :
    ∃ s x y, ofEntries hiddenFall = .ok s ∧ requiredT s.thresholds (.int 1) = .ok x ∧
      requiredT s.thresholds (.int 100) = .ok y ∧
      (Extended.ofFloat x).le (.ofFloat y) = false := by
  have h : (do
      let s ← (ofEntries hiddenFall).mapError (·.toFailure)
      let x ← requiredT s.thresholds (.int 1)
      let y ← requiredT s.thresholds (.int 100)
      return (Extended.ofFloat x).le (.ofFloat y) : Except Failure Bool).toOption = some false := by
    decide +kernel
  simp only [to_option_eq_some, bind_eq_ok, map_error_eq_ok] at h
  obtain ⟨s, accepted, x, hx, y, hy, h⟩ := h
  exact ⟨s, x, y, accepted, hx, hy, Except.ok.inj h⟩

end BacktestAudit.Statistics
