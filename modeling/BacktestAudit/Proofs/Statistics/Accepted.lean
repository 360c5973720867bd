import BacktestAudit.Data.Outcome
import BacktestAudit.Proofs.Decimal.Range
import BacktestAudit.Statistics.Metrics

/-!
What the checks of metrics leave: finite numbers, and counts of at least one that doubles can hold.
Finite numbers in a rectangular table are accepted as they are given.
-/
namespace BacktestAudit.Statistics.Metrics
open BacktestAudit.Data BacktestAudit.Data.Outcome BacktestAudit.Decimal
set_option autoImplicit false

/-! ## Fields -/

/-- Metrics are made of what is read from each field. -/
theorem of_fields_eq_ok {entries : Entries Value} {m : Metrics} : ofFields entries = .ok m ↔
    finiteItems "returns" (get entries "returns") = .ok m.returns ∧
      finite "sharpe" (get entries "sharpe") = .ok m.sharpe ∧
      finite "max_drawdown" (get entries "max_drawdown") = .ok m.maxDrawdown ∧
      finite "win_rate" (get entries "win_rate") = .ok m.winRate ∧
      optional entries "total_return" (finite "total_return") = .ok m.totalReturn ∧
      countOf entries "trial_count" = .ok m.trialCount ∧
      countOf entries "variant_count" = .ok m.variantCount ∧ isShare m.winRate = true ∧
      optional entries "variant_returns" variantTable = .ok m.variantReturns := by
  unfold ofFields
  simp only [bind_eq_ok]
  constructor
  · rintro ⟨returns, hreturns, sharpe, hsharpe, drawdown, hdrawdown, rate, hrate, total, htotal,
      trials, htrials, variants, hvariants, h⟩
    cases hshare : isShare rate with
    | false =>
      rw [hshare] at h
      cases h
    | true =>
      rw [hshare] at h
      simp only [Bool.not_true, Bool.false_eq_true, if_false, bind_eq_ok] at h
      obtain ⟨table, htable, h⟩ := h
      cases h
      exact ⟨hreturns, hsharpe, hdrawdown, hrate, htotal, htrials, hvariants, hshare, htable⟩
  · rintro ⟨hreturns, hsharpe, hdrawdown, hrate, htotal, htrials, hvariants, hshare, htable⟩
    refine ⟨_, hreturns, _, hsharpe, _, hdrawdown, _, hrate, _, htotal, _, htrials, _, hvariants, ?_⟩
    rw [hshare]
    simp only [Bool.not_true, Bool.false_eq_true, if_false, bind_eq_ok]
    exact ⟨_, htable, rfl⟩

theorem unexpected_ne_ok {α : Type} {field wanted : String} {v : Value} {x : α} :
    unexpected field wanted v ≠ .ok x := by
  unfold unexpected
  split <;> nofun

theorem finite_eq_ok {field : String} {v : Value} {x : Float} :
    finite field v = .ok x ↔ double field v = .ok x ∧ Binary64.isFinite x = true := by
  unfold finite
  rw [bind_eq_ok]
  constructor
  · rintro ⟨y, hy, h⟩
    split at h
    · next hfinite =>
      cases h
      exact ⟨hy, hfinite⟩
    · nomatch h
  · rintro ⟨hx, hfinite⟩
    exact ⟨x, hx, if_pos hfinite⟩

theorem finite_ok {field : String} {v : Value} {x : Float} (h : finite field v = .ok x) :
    Binary64.isFinite x = true :=
  (finite_eq_ok.mp h).2

theorem finite_of_float {field : String} {x : Float} (h : Binary64.isFinite x = true) :
    finite field (.float x) = .ok x :=
  finite_eq_ok.mpr ⟨rfl, h⟩

theorem int_fits_of_whole {x : Float} {n : Int} (hpos : 1 ≤ n) (h : wholeOf? x = some n) :
    Binary64.intFits n = true := by
  unfold wholeOf? at h
  split at h
  · next num den hratio =>
    split at h
    · next hmod =>
      have hextended := Binary64.ratio_eq_some hratio
      have hden := ratio_pos hextended
      cases h
      refine Binary64.int_fits_of_le ?_
      have hle := ratio_le_greatest hextended
      have hcut : num / (den : Int) ≤ greatest := by
        refine Int.ediv_le_of_le_mul (by omega) ?_
        exact hle
      omega
    · cases h
  · cases h

theorem count_eq_ok {field : String} {v : Value} {n : Int} :
    count field v = .ok n ↔ whole field v = .ok n ∧ 1 ≤ n := by
  unfold count
  rw [bind_eq_ok]
  constructor
  · rintro ⟨k, hk, h⟩
    split at h
    · nomatch h
    · cases h
      exact ⟨hk, by omega⟩
  · rintro ⟨hn, hpos⟩
    exact ⟨n, hn, if_neg (by omega)⟩

theorem count_ok {field : String} {v : Value} {n : Int} (h : count field v = .ok n) :
    1 ≤ n ∧ Binary64.intFits n = true := by
  obtain ⟨hwhole, hpos⟩ := count_eq_ok.mp h
  refine ⟨hpos, ?_⟩
  unfold whole at hwhole
  split at hwhole
  · split at hwhole
    · next hfits => exact Except.ok.inj hwhole ▸ hfits
    · nomatch hwhole
  · split at hwhole
    · next hk => exact int_fits_of_whole hpos (Except.ok.inj hwhole ▸ hk)
    · exact absurd hwhole unexpected_ne_ok
  · exact absurd hwhole unexpected_ne_ok

/-! ## Accepted metrics -/

/-- Metrics that meet the checks that a verdict depends on. -/
structure Checked (m : Metrics) : Prop where
  sharpe : Binary64.isFinite m.sharpe = true
  win_rate : Binary64.isFinite m.winRate = true
  variant_count : 1 ≤ m.variantCount ∧ Binary64.intFits m.variantCount = true

theorem checked_of_make {entries : Entries Value} {m : Metrics} (h : make entries = .ok m) :
    m.Checked := by
  unfold make at h
  split at h
  · obtain ⟨-, hsharpe, -, hrate, -, -, hvariants, -⟩ := of_fields_eq_ok.mp h
    exact ⟨finite_ok hsharpe, finite_ok hrate, count_ok hvariants⟩
  · cases h

/-! ## Numbers that are accepted as they are -/

theorem map_m_of_each {γ : Type} {given : γ → Value} {read : Value × Nat → Except Failure γ}
    {cs : List γ} (h : ∀ c ∈ cs, ∀ i, read (given c, i) = .ok c) (i : Nat) :
    ((cs.map given).zipIdx i).mapM read = .ok cs := by
  induction cs generalizing i with
  | nil => rfl
  | cons c cs ih =>
    obtain ⟨hc, hcs⟩ := List.forall_mem_cons.mp h
    rw [List.map_cons, List.zipIdx_cons, List.mapM_cons, hc, ih hcs]
    rfl

/-- Doubles as a list among plain data. -/
def listed (xs : List Float) : Value := .list (xs.map .float)

theorem finite_items_of_floats {field : String} {xs : List Float}
    (h : ∀ x ∈ xs, Binary64.isFinite x = true) : finiteItems field (listed xs) = .ok xs :=
  map_m_of_each (fun x hx _ => finite_of_float (h x hx)) 0

/-- A rectangular table of finite doubles is accepted when it is at least two columns wide. -/
theorem variant_table_of_floats {rows : List (List Float)} {width : Nat} (hne : rows ≠ [])
    (hwidth : ∀ row ∈ rows, row.length = width) (htwo : 2 ≤ width)
    (hfinite : ∀ row ∈ rows, ∀ x ∈ row, Binary64.isFinite x = true) :
    variantTable (.list (rows.map listed)) = .ok rows := by
  unfold variantTable
  refine bind_eq_ok.mpr ⟨_, rfl, bind_eq_ok.mpr ⟨rows, ?_, ?_⟩⟩
  · exact map_m_of_each (fun row hrow _ => finite_items_of_floats (hfinite row hrow)) 0
  · cases rows with
    | nil => exact absurd rfl hne
    | cons row rest =>
      obtain ⟨rfl, hrest⟩ := List.forall_mem_cons.mp hwidth
      have hequal : rest.any (fun other => decide (other.length ≠ row.length)) = false := by
        simpa using hrest
      simp only [rectangular]
      rw [hequal, if_neg Bool.false_ne_true, if_neg (by omega)]

/-- Metrics of some returns and a table, all else being unremarkable. -/
def plain (returns : List Float) (table : List (List Float)) : Metrics where
  returns
  sharpe := 1
  maxDrawdown := 0.2
  winRate := 0.5
  trialCount := 1
  variantCount := 2
  variantReturns := some table
  totalReturn := none

def plainEntries (returns : List Float) (table : List (List Float)) : Entries Value :=
  [("returns", listed returns), ("sharpe", .float 1), ("max_drawdown", .float 0.2),
    ("win_rate", .float 0.5), ("variant_count", .int 2),
    ("variant_returns", .list (table.map listed))]

theorem make_of_plain {returns : List Float} {table : List (List Float)} (width : Nat)
    (hreturns : ∀ x ∈ returns, Binary64.isFinite x = true) (hne : table ≠ [])
    (hwidth : ∀ row ∈ table, row.length = width) (htwo : 2 ≤ width)
    (hfinite : ∀ row ∈ table, ∀ x ∈ row, Binary64.isFinite x = true) :
    make (plainEntries returns table) = .ok (plain returns table) := by
  have hkeys : (requiredFields.all (· ∈ Entries.keys (plainEntries returns table)) &&
      (Entries.keys (plainEntries returns table)).all (· ∈ fields)) = true := rfl
  unfold make
  rw [if_pos hkeys, of_fields_eq_ok]
  refine ⟨finite_items_of_floats hreturns, finite_of_float ?_, finite_of_float ?_,
    finite_of_float ?_, rfl, rfl, rfl, ?_, ?_⟩
  · decide +kernel
  · decide +kernel
  · decide +kernel
  · change isShare 0.5 = true
    decide +kernel
  · exact map_eq_ok.mpr ⟨table, variant_table_of_floats hne hwidth htwo hfinite, rfl⟩

end BacktestAudit.Statistics.Metrics
