import BacktestAudit.Proofs.Statistics.Accepted
import Mathlib.Data.List.Sort
import Mathlib.Data.String.Basic

/-!
What becomes of a record of metrics. Its fields are checked one behind the other, and the first check
that does not pass decides: the record is refused by the name of the field or of the place in it, or
it ends by accident, at an integer beyond the range of doubles, at one that is too long to be shown,
or at a table of returns that has no rows to run through. A record that passes all checks gives valid
metrics.
-/
namespace BacktestAudit.Statistics.Metrics
open BacktestAudit.Data BacktestAudit.Data.Outcome BacktestAudit.Decimal
set_option autoImplicit false

/-! ## Checks one behind the other -/

/-- A check: what it is about, when it passes, and by which accidents it may end. -/
structure Check where
  field : String
  passes : Prop
  accident : Accident → Prop

/-- Of some checks the first that does not pass is of a kind. -/
def First (kind : Check → Prop) : List Check → Prop
  | [] => False
  | c :: cs => kind c ∨ c.passes ∧ First kind cs

theorem first_append {kind : Check → Prop} {cs ds : List Check} :
    First kind (cs ++ ds) ↔ First kind cs ∨ (∀ c ∈ cs, c.passes) ∧ First kind ds := by
  induction cs with
  | nil => simp [First]
  | cons c cs ih =>
    rw [List.cons_append, First, ih, First, List.forall_mem_cons, and_or_left, or_assoc, and_assoc]

theorem first_singleton {kind : Check → Prop} {c : Check} : First kind [c] ↔ kind c := by
  simp [First]

/-- A failure of a check on a field: an accident, or a refusal by the name of the field. -/
inductive FailureAt (field : String) : Failure → Prop
  | accident (a : Accident) : FailureAt field (.accident a)
  | refusal (reason : String) : FailureAt field (.error (.invalidMetrics field reason))

/-- What a step gives that makes some checks: something when all of them pass, an accident when the
first that does not pass ends by it, and else a refusal by the name of its field. -/
structure Makes {α : Type} (cs : List Check) (r : Except Failure α) : Prop where
  passes : (∃ x, r = .ok x) ↔ ∀ c ∈ cs, c.passes
  accident : ∀ a, r = .error (.accident a) ↔ First (·.accident a) cs
  refusal : ∀ e, r = .error (.error e) → ∃ name reason, e = .invalidMetrics name reason ∧
    First (fun c => ¬ c.passes ∧ c.field = name) cs

namespace Makes

variable {α β : Type} {c : Check} {cs ds : List Check} {x : Except Failure α}

theorem ok (a : α) : Makes [] (.ok a : Except Failure α) where
  passes := ⟨fun _ => nofun, fun _ => ⟨a, rfl⟩⟩
  accident _ := ⟨nofun, nofun⟩
  refusal _ := nofun

theorem single (hpasses : (∃ a, x = .ok a) ↔ c.passes)
    (haccident : ∀ a, x = .error (.accident a) ↔ c.accident a)
    (h : FailsOnly (FailureAt c.field) x) : Makes [c] x where
  passes := by rw [hpasses, List.forall_mem_singleton]
  accident a := by rw [haccident, first_singleton]
  refusal e he := by
    cases h _ he with
    | refusal reason =>
      refine ⟨_, reason, rfl, first_singleton.mpr ⟨fun hc => ?_, rfl⟩⟩
      obtain ⟨a, ha⟩ := hpasses.mpr hc
      rw [ha] at he
      nomatch he

theorem bind {f : α → Except Failure β} (hx : Makes cs x)
    (hf : ∀ a, x = .ok a → Makes ds (f a)) : Makes (cs ++ ds) (x >>= f) := by
  have hpassed {a : α} (ha : x = .ok a) : ∀ c ∈ cs, c.passes := hx.passes.mp ⟨a, ha⟩
  refine ⟨?_, fun a => ?_, fun e h => ?_⟩
  · rw [bind_succeeds_iff, List.forall_mem_append]
    constructor
    · rintro ⟨a, ha, h⟩
      exact ⟨hpassed ha, (hf a ha).passes.mp h⟩
    · rintro ⟨hcs, hds⟩
      obtain ⟨a, ha⟩ := hx.passes.mpr hcs
      exact ⟨a, ha, (hf a ha).passes.mpr hds⟩
  · rw [bind_eq_error, first_append, hx.accident]
    refine or_congr_right ⟨?_, ?_⟩
    · rintro ⟨b, hb, h⟩
      exact ⟨hpassed hb, ((hf b hb).accident a).mp h⟩
    · rintro ⟨hcs, hds⟩
      obtain ⟨b, hb⟩ := hx.passes.mpr hcs
      exact ⟨b, hb, ((hf b hb).accident a).mpr hds⟩
  · rcases bind_eq_error.mp h with h | ⟨a, ha, h⟩
    · obtain ⟨name, reason, he, hfirst⟩ := hx.refusal e h
      exact ⟨name, reason, he, first_append.mpr (.inl hfirst)⟩
    · obtain ⟨name, reason, he, hfirst⟩ := (hf a ha).refusal e h
      exact ⟨name, reason, he, first_append.mpr (.inr ⟨hpassed ha, hfirst⟩)⟩

theorem bind_ok {f : α → β} (hx : Makes cs x) : Makes cs (x >>= fun a => .ok (f a)) := by
  have h := hx.bind fun a _ => ok (f a)
  rwa [List.append_nil] at h

theorem map {f : α → β} (hx : Makes cs x) : Makes cs (f <$> x) := by
  cases x <;> exact hx.bind_ok (f := f)

theorem mapM {f : α → Except Failure β} {check : α → List Check} {as : List α}
    (h : ∀ a ∈ as, Makes (check a) (f a)) : Makes (as.flatMap check) (as.mapM f) := by
  induction as with
  | nil => exact ok []
  | cons a as ih =>
    obtain ⟨ha, has⟩ := List.forall_mem_cons.mp h
    rw [List.flatMap_cons, List.mapM_cons]
    exact ha.bind fun b _ => (ih has).bind_ok

/-- A check that never ends by accident: a test that refuses what it does not let pass. -/
theorem tested {p : Prop}
    (h : (p ∧ ∃ a, x = .ok a) ∨ ¬ p ∧ ∃ reason, x = refuse c.field reason)
    (hpasses : c.passes ↔ p) (haccident : ∀ a, ¬ c.accident a) : Makes [c] x := by
  rcases h with ⟨hp, a, rfl⟩ | ⟨hp, reason, rfl⟩
  · refine single (iff_of_true ⟨a, rfl⟩ (hpasses.mpr hp)) (fun b => ?_) .ok
    exact iff_of_false nofun (haccident b)
  · refine single (iff_of_false nofun (mt hpasses.mp hp)) (fun b => ?_) (.error (.refusal reason))
    exact iff_of_false nofun (haccident b)

/-- A test and what it guards. -/
theorem guard (reason : String) {test : Prop} [Decidable test] (hpasses : c.passes ↔ test)
    (haccident : ∀ a, ¬ c.accident a) (hx : test → Makes cs x) :
    Makes (c :: cs) (if test then x else refuse c.field reason) := by
  by_cases htest : test
  · have hpassed : Makes [c] (.ok ()) := tested (.inl ⟨htest, (), rfl⟩) hpasses haccident
    rw [if_pos htest]
    exact hpassed.bind fun _ _ => hx htest
  · have hrefused : Makes [c] (refuse c.field reason : Except Failure Unit) :=
      tested (.inr ⟨htest, reason, rfl⟩) hpasses haccident
    rw [if_neg htest]
    exact hrefused.bind (f := fun _ => x) nofun

end Makes

/-! ## Numbers and counts -/

/-- The double that a value stands for: text is read as one, and a truth value is zero or one. -/
inductive ReadsDouble : Value → Float → Prop
  | text {s : String} {x : Float} (h : readFloat? s = some x) : ReadsDouble (.text s) x
  | number {v : Value} {n : Number} {x : Float} (hv : v.number? = some n)
      (h : n.toFloat? = some x) : ReadsDouble v x

/-- The integer that a number stands for; a truth value stands for none. -/
inductive ReadsWhole : Value → Int → Prop
  | int {n : Int} (h : Binary64.intFits n = true) : ReadsWhole (.int n) n
  | float {x : Float} {n : Int} (h : wholeOf? x = some n) : ReadsWhole (.float x) n

/-- How reading a number ends by accident: at an integer beyond the range of doubles, or at something
else with an integer in it that is too long to be shown. -/
def NumberAccident (a : Accident) : Value → Prop
  | .int n => Binary64.intFits n = false ∧ a = .outOfRange
  | v => v.isWritable = false ∧ a = .wrongValue

theorem unexpected_accident {α : Type} {field wanted : String} {v : Value} {a : Accident} :
    (unexpected field wanted v : Except Failure α) = .error (.accident a) ↔
      v.isWritable = false ∧ a = .wrongValue := by
  unfold unexpected
  cases v.isWritable with
  | true => exact iff_of_false nofun nofun
  | false => simp [eq_comm]

theorem unexpected_fails {α : Type} {field wanted : String} {v : Value} :
    FailsOnly (FailureAt field) (unexpected field wanted v : Except Failure α) := by
  unfold unexpected
  split
  · exact .error (.refusal _)
  · exact .error (.accident _)

theorem double_eq_ok {field : String} {v : Value} {x : Float} :
    double field v = .ok x ↔ ReadsDouble v x := by
  constructor
  · intro h
    unfold double at h
    split at h
    · split at h
      · next hread =>
        cases h
        exact .text hread
      · exact absurd h unexpected_ne_ok
    · split at h
      · next hnumber =>
        split at h
        · next hfloat =>
          cases h
          exact .number hnumber hfloat
        · nomatch h
      · exact absurd h unexpected_ne_ok
  · rintro (hread | ⟨hnumber, hfloat⟩)
    · simp only [double, hread]
    · unfold double
      split
      · nomatch hnumber
      · simp only [hnumber, hfloat]

theorem reads_double_unique {v : Value} {x y : Float} (hx : ReadsDouble v x)
    (hy : ReadsDouble v y) : x = y := by
  have hread : double "" v = .ok x := double_eq_ok.mpr hx
  exact Except.ok.inj (hread.symm.trans (double_eq_ok.mpr hy))

theorem double_accident {field : String} {v : Value} {a : Accident} :
    double field v = .error (.accident a) ↔ NumberAccident a v := by
  cases v with
  | int n =>
    simp only [double, Value.number?, Number.toFloat?, NumberAccident]
    cases Binary64.intFits n <;> simp [eq_comm]
  | text s =>
    simp only [double]
    cases readFloat? s with
    | none => exact unexpected_accident
    | some x => exact iff_of_false nofun fun h => nomatch h.1
  | bool | float => exact iff_of_false nofun fun h => nomatch h.1
  | null | list | table | moment => exact unexpected_accident

theorem double_fails (field : String) (v : Value) :
    FailsOnly (FailureAt field) (double field v) := by
  unfold double
  split
  · split
    · exact .ok
    · exact unexpected_fails
  · split
    · split
      · exact .ok
      · exact .error (.accident _)
    · exact unexpected_fails

theorem whole_eq_ok {field : String} {v : Value} {n : Int} :
    whole field v = .ok n ↔ ReadsWhole v n := by
  constructor
  · intro h
    unfold whole at h
    split at h
    · split at h
      · next hfits =>
        cases h
        exact .int hfits
      · nomatch h
    · split at h
      · next hwhole =>
        cases h
        exact .float hwhole
      · exact absurd h unexpected_ne_ok
    · exact absurd h unexpected_ne_ok
  · rintro (hfits | hwhole)
    · exact if_pos hfits
    · simp only [whole, hwhole]

theorem whole_accident {field : String} {v : Value} {a : Accident} :
    whole field v = .error (.accident a) ↔ NumberAccident a v := by
  cases v with
  | int n =>
    simp only [whole, NumberAccident]
    cases Binary64.intFits n <;> simp [eq_comm]
  | float x =>
    simp only [whole]
    cases wholeOf? x with
    | none => exact unexpected_accident
    | some n => exact iff_of_false nofun fun h => nomatch h.1
  | null | bool | text | list | table | moment => exact unexpected_accident

theorem whole_fails (field : String) (v : Value) :
    FailsOnly (FailureAt field) (whole field v) := by
  unfold whole
  split
  · split
    · exact .ok
    · exact .error (.accident _)
  · split
    · exact .ok
    · exact unexpected_fails
  · exact unexpected_fails

/-- A value is taken for a finite number. -/
def numberCheck (field : String) (v : Value) : Check where
  field
  passes := ∃ x, ReadsDouble v x ∧ Binary64.isFinite x = true
  accident a := NumberAccident a v

/-- A value is taken for a count of at least one. -/
def countCheck (field : String) (v : Value) : Check where
  field
  passes := ∃ n, ReadsWhole v n ∧ 1 ≤ n
  accident a := NumberAccident a v

theorem finite_makes (field : String) (v : Value) :
    Makes [numberCheck field v] (finite field v) := by
  refine .single ?_ (fun a => ?_) ?_
  · simp only [finite_eq_ok, double_eq_ok]
    rfl
  · unfold finite
    rw [bind_eq_error, double_accident, or_iff_left]
    · rfl
    · rintro ⟨x, -, h⟩
      split at h <;> nomatch h
  · refine (double_fails field v).bind fun x _ => ?_
    split
    · exact .ok
    · exact .error (.refusal _)

theorem count_makes (field : String) (v : Value) : Makes [countCheck field v] (count field v) := by
  refine .single ?_ (fun a => ?_) ?_
  · simp only [count_eq_ok, whole_eq_ok]
    rfl
  · unfold count
    rw [bind_eq_error, whole_accident, or_iff_left]
    · rfl
    · rintro ⟨n, -, h⟩
      split at h <;> nomatch h
  · refine (whole_fails field v).bind fun n _ => ?_
    split
    · exact .error (.refusal _)
    · exact .ok

/-! ## Lists and tables -/

/-- A value has items to run through. -/
def itemsCheck (field : String) (v : Value) : Check where
  field
  passes := ∃ vs, items v = .ok vs
  accident a := a = .wrongKind ∧ ∀ vs, items v ≠ .ok vs

/-- The checks of the items of a value by their places, behind the check that there are items. -/
def placeChecks (check : String → Value → List Check) (field : String) (v : Value) : List Check :=
  itemsCheck field v ::
    ((items v).toOption.getD []).zipIdx.flatMap fun (x, i) => check s!"{field}[{i}]" x

theorem items_make (field : String) (v : Value) : Makes [itemsCheck field v] (items v) := by
  have hitems : (∃ vs, items v = .ok vs) ∨ items v = .error (.accident .wrongKind) := by
    cases v with
    | list vs => exact .inl ⟨vs, rfl⟩
    | text s => exact .inl ⟨_, rfl⟩
    | table es => exact .inl ⟨_, rfl⟩
    | _ => exact .inr rfl
  refine .single Iff.rfl (fun a => ?_) ?_
  · rcases hitems with ⟨vs, h⟩ | h
    · exact iff_of_false (by rw [h]; nofun) fun hnone => hnone.2 vs h
    · simp [itemsCheck, h, eq_comm]
  · rcases hitems with ⟨vs, h⟩ | h
    · rw [h]
      exact .ok
    · rw [h]
      exact .error (.accident _)

/-- Reading the items of a value, each by the name of its place. -/
theorem places_make {α : Type} {check : String → Value → List Check}
    {read : String → Value → Except Failure α} (field : String) (v : Value)
    (h : ∀ name x, Makes (check name x) (read name x)) :
    Makes (placeChecks check field v)
      (items v >>= fun vs => vs.zipIdx.mapM fun (x, i) => read s!"{field}[{i}]" x) := by
  refine (items_make field v).bind fun vs hvs => ?_
  rw [hvs]
  exact .mapM fun xi _ => h _ xi.1

theorem places_related {α : Type} {read : Value × Nat → Except Failure α} {v : Value} {as : List α}
    (h : (items v >>= fun vs => vs.zipIdx.mapM read) = .ok as) :
    ∃ vs, items v = .ok vs ∧ List.Forall₂ (fun x a => ∃ i, read (x, i) = .ok a) vs as := by
  obtain ⟨vs, hvs, has⟩ := bind_eq_ok.mp h
  refine ⟨vs, hvs, ?_⟩
  have hrelated : List.Forall₂ (fun (xi : Value × Nat) a => ∃ i, read (xi.1, i) = .ok a)
      vs.zipIdx as := (mapM_eq_ok_iff.mp has).imp fun xi a h => ⟨xi.2, h⟩
  rw [← List.zipIdx_map_fst 0 vs, List.forall₂_map_left_iff]
  exact hrelated

def numberChecks (field : String) (v : Value) : List Check :=
  placeChecks (fun name x => [numberCheck name x]) field v

theorem finite_items_make (field : String) (v : Value) :
    Makes (numberChecks field v) (finiteItems field v) :=
  places_make field v finite_makes

theorem finite_items_ok {field : String} {v : Value} {xs : List Float}
    (h : finiteItems field v = .ok xs) : ∀ x ∈ xs, Binary64.isFinite x = true := by
  intro x hx
  obtain ⟨vs, -, hrelated⟩ := places_related h
  obtain ⟨_, -, i, hfinite⟩ := exists_left_of_mem hrelated hx
  exact finite_ok hfinite

/-- Rows of one length, with at least two columns. -/
def IsGrid (rows : List (List Float)) : Prop :=
  rows ≠ [] ∧ ∃ width, 2 ≤ width ∧ ∀ row ∈ rows, row.length = width

/-- A table has rows of one length, with at least two columns. -/
def gridCheck (field : String) (v : Value) : Check where
  field
  passes := ∃ vs width, items v = .ok vs ∧ vs ≠ [] ∧ 2 ≤ width ∧
    ∀ row ∈ vs, ∃ xs, items row = .ok xs ∧ xs.length = width
  accident _ := False

theorem rectangular_cases (field : String) (rows : List (List Float)) :
    (IsGrid rows ∧ rectangular field rows = .ok rows) ∨
      ¬ IsGrid rows ∧ ∃ reason, rectangular field rows = refuse field reason := by
  unfold rectangular
  split
  · exact .inr ⟨fun h => h.1 rfl, _, rfl⟩
  · next row rest =>
    split
    · next hany =>
      refine .inr ⟨?_, _, rfl⟩
      rintro ⟨-, width, -, hall⟩
      obtain ⟨hrow, hrest⟩ := List.forall_mem_cons.mp hall
      obtain ⟨other, hother, hlength⟩ := List.any_eq_true.mp hany
      exact of_decide_eq_true hlength ((hrest other hother).trans hrow.symm)
    · next hequal =>
      split
      · next hwidth =>
        refine .inr ⟨?_, _, rfl⟩
        rintro ⟨-, width, htwo, hall⟩
        have := hall row (List.mem_cons_self ..)
        omega
      · next hwidth =>
        refine .inl ⟨⟨List.cons_ne_nil _ _, row.length, by omega, ?_⟩, rfl⟩
        refine List.forall_mem_cons.mpr ⟨rfl, fun other hother => ?_⟩
        by_contra hlength
        exact hequal (List.any_eq_true.mpr ⟨other, hother, decide_eq_true hlength⟩)

theorem rectangular_eq_ok {field : String} {given rows : List (List Float)}
    (h : rectangular field given = .ok rows) : IsGrid given ∧ given = rows := by
  rcases rectangular_cases field given with ⟨hgrid, hok⟩ | ⟨-, reason, hrefused⟩
  · exact ⟨hgrid, Except.ok.inj (hok.symm.trans h)⟩
  · nomatch hrefused.symm.trans h

theorem grid_check_iff {field : String} {v : Value} {rows : List (List Float)}
    (h : (items v >>= fun vs => vs.zipIdx.mapM fun (row, t) => finiteItems s!"{field}[{t}]" row) =
      .ok rows) : (gridCheck field v).passes ↔ IsGrid rows := by
  obtain ⟨vs, hvs, hrelated⟩ := places_related h
  have hrows : List.Forall₂ (fun v row => ∃ xs, items v = .ok xs ∧ xs.length = row.length)
      vs rows := by
    refine hrelated.imp fun v row hread => ?_
    obtain ⟨i, hread⟩ := hread
    obtain ⟨xs, hxs, hitems⟩ := places_related hread
    exact ⟨xs, hxs, hitems.length_eq⟩
  have hempty : vs ≠ [] ↔ rows ≠ [] := by
    rw [← List.length_pos_iff, ← List.length_pos_iff, hrows.length_eq]
  constructor
  · rintro ⟨ws, width, hws, hne, htwo, hall⟩
    obtain rfl : vs = ws := Except.ok.inj (hvs.symm.trans hws)
    refine ⟨hempty.mp hne, width, htwo, fun row hrow => ?_⟩
    obtain ⟨v, hv, xs, hxs, hlength⟩ := exists_left_of_mem hrows hrow
    obtain ⟨ys, hys, hwidth⟩ := hall v hv
    obtain rfl : xs = ys := Except.ok.inj (hxs.symm.trans hys)
    exact hlength.symm.trans hwidth
  · rintro ⟨hne, width, htwo, hall⟩
    refine ⟨vs, width, hvs, hempty.mpr hne, htwo, fun v hv => ?_⟩
    obtain ⟨row, hrow, xs, hxs, hlength⟩ := exists_right_of_mem hrows hv
    exact ⟨xs, hxs, hlength.trans (hall row hrow)⟩

def tableChecks (v : Value) : List Check :=
  placeChecks numberChecks "variant_returns" v ++ [gridCheck "variant_returns" v]

theorem variant_table_makes (v : Value) : Makes (tableChecks v) (variantTable v) := by
  have h := (places_make "variant_returns" v finite_items_make).bind fun rows hrows =>
    have hcases := (rectangular_cases "variant_returns" rows).imp_left fun h => ⟨h.1, rows, h.2⟩
    Makes.tested (c := gridCheck "variant_returns" v) hcases (grid_check_iff hrows) fun _ => id
  rwa [bind_assoc] at h

theorem variant_table_ok {v : Value} {rows : List (List Float)} (h : variantTable v = .ok rows) :
    IsGrid rows ∧ ∀ row ∈ rows, ∀ x ∈ row, Binary64.isFinite x = true := by
  obtain ⟨vs, hvs, h⟩ := bind_eq_ok.mp h
  obtain ⟨given, hgiven, h⟩ := bind_eq_ok.mp h
  obtain ⟨hgrid, rfl⟩ := rectangular_eq_ok h
  refine ⟨hgrid, fun row hrow => ?_⟩
  obtain ⟨_, -, hread⟩ := places_related (bind_eq_ok.mpr ⟨vs, hvs, hgiven⟩)
  obtain ⟨_, -, t, hitems⟩ := exists_left_of_mem hread hrow
  exact finite_items_ok hitems

/-! ## The fields of a record -/

/-- The checks of a value that may be null. -/
def unlessNull (checks : Value → List Check) : Value → List Check
  | .null => []
  | v => checks v

theorem optional_makes {α : Type} (entries : Entries Value) (field : String)
    {read : Value → Except Failure α} {checks : Value → List Check}
    (h : ∀ v, Makes (checks v) (read v)) :
    Makes (unlessNull checks (get entries field)) (optional entries field read) := by
  unfold optional get
  cases (Entries.get? entries field).getD .null with
  | null => exact .ok none
  | _ => exact (h _).map

/-- A name is among some names. -/
def nameCheck (names : List String) (name : String) : Check where
  field := name
  passes := name ∈ names
  accident _ := False

/-- A value is a list. -/
def listCheck (field : String) (v : Value) : Check where
  field
  passes := ∃ vs, v = .list vs
  accident _ := False

/-- The exact value of a double lies between zero and one. -/
def IsShare (x : Float) : Prop :=
  ∃ num den, Extended.ofFloat x = .ratio num den ∧ 0 ≤ num ∧ num ≤ den

theorem is_share_iff {x : Float} : isShare x = true ↔ IsShare x := by
  unfold isShare IsShare
  cases Extended.ofFloat x with
  | ratio num den =>
    simp only [Extended.ofInt, Extended.le, Extended.lt, Extended.same, Bool.and_eq_true,
      Bool.or_eq_true, decide_eq_true_eq, beq_iff_eq, Extended.ratio.injEq]
    constructor
    · rintro ⟨hnonneg, hle⟩
      exact ⟨num, den, ⟨rfl, rfl⟩, by omega, by omega⟩
    · rintro ⟨_, _, ⟨rfl, rfl⟩, hnonneg, hle⟩
      omega
  | infinite negative =>
    cases negative <;> simp [Extended.ofInt, Extended.le, Extended.lt, Extended.same]
  | nan => simp [Extended.ofInt, Extended.le, Extended.lt, Extended.same]

/-- A value is taken for a number from zero to one. -/
def shareCheck (field : String) (v : Value) : Check where
  field
  passes := ∃ x, ReadsDouble v x ∧ IsShare x
  accident _ := False

/-- The checks of the values of fields, in the order in which they are made. -/
def fieldChecks (entries : Entries Value) : List Check :=
  numberChecks "returns" (get entries "returns") ++
  [numberCheck "sharpe" (get entries "sharpe"),
    numberCheck "max_drawdown" (get entries "max_drawdown"),
    numberCheck "win_rate" (get entries "win_rate")] ++
  unlessNull (fun v => [numberCheck "total_return" v]) (get entries "total_return") ++
  [countCheck "trial_count" ((Entries.get? entries "trial_count").getD (.int 1)),
    countCheck "variant_count" ((Entries.get? entries "variant_count").getD (.int 1)),
    shareCheck "win_rate" (get entries "win_rate")] ++
  unlessNull tableChecks (get entries "variant_returns")

/-- The checks of a record: that no required field is missing and no other field is there, that the
returns are a list, and those of the values. -/
def checks (entries : Entries Value) : List Check :=
  requiredFields.map (nameCheck (Entries.keys entries)) ++
  ((Entries.keys entries).mergeSort (· ≤ ·)).map (nameCheck fields) ++
  listCheck "returns" (get entries "returns") :: fieldChecks entries

theorem of_fields_make (entries : Entries Value) :
    Makes (fieldChecks entries) (ofFields entries) := by
  simp only [fieldChecks, List.append_assoc, List.cons_append, List.nil_append]
  unfold ofFields
  refine (finite_items_make ..).bind fun returns _ => ?_
  refine (finite_makes ..).bind fun sharpe _ => ?_
  refine (finite_makes ..).bind fun drawdown _ => ?_
  refine (finite_makes ..).bind fun rate hrate => ?_
  refine (optional_makes entries _ (finite_makes "total_return")).bind fun total _ => ?_
  refine (count_makes ..).bind fun trials _ => ?_
  refine (count_makes ..).bind fun variants _ => ?_
  have hshare : (shareCheck "win_rate" (get entries "win_rate")).passes ↔ isShare rate = true := by
    have hreads := double_eq_ok.mp (finite_eq_ok.mp hrate).1
    rw [is_share_iff]
    refine ⟨?_, fun h => ⟨rate, hreads, h⟩⟩
    rintro ⟨x, hx, h⟩
    rwa [reads_double_unique hreads hx]
  have hguard := Makes.guard "must be between 0 and 1" hshare (fun _ => id) fun _ =>
    (optional_makes entries "variant_returns" variant_table_makes).bind_ok
      (f := fun table => ({
        returns, sharpe, maxDrawdown := drawdown, winRate := rate, trialCount := trials,
        variantCount := variants, variantReturns := table, totalReturn := total } : Metrics))
  cases htest : isShare rate <;> rw [htest] at hguard <;> exact hguard

/-- The first of some names that is not among others is refused, before what is guarded. -/
theorem names_make {α : Type} {x : Except Failure α} {cs : List Check} (names allowed : List String)
    (reason : String) (hx : Makes cs x) :
    Makes (names.map (nameCheck allowed) ++ cs)
      (match names.find? (· ∉ allowed) with
        | some name => refuse name reason
        | none => x) := by
  induction names with
  | nil => exact hx
  | cons name names ih =>
    have hpasses : (nameCheck allowed name).passes ↔ name ∈ allowed := Iff.rfl
    have h := Makes.guard reason hpasses (fun _ => id) fun _ => ih
    rw [List.find?_cons]
    by_cases hname : name ∈ allowed
    · rw [if_pos hname] at h
      rwa [decide_eq_false (not_not_intro hname)]
    · rw [if_neg hname] at h
      rwa [decide_eq_true hname]

theorem sorted_unknown (names : List String) (p : String → Bool) :
    (names.filter p).mergeSort (· ≤ ·) = (names.mergeSort (· ≤ ·)).filter p := by
  have hsorted (l : List String) := List.pairwise_mergeSort' (· ≤ ·) l
  refine List.Perm.eq_of_pairwise' (hsorted _) ((hsorted names).filter p) ?_
  exact (List.mergeSort_perm _ _).trans ((List.mergeSort_perm names _).symm.filter p)

theorem of_entries_make (entries : Entries Value) : Makes (checks entries) (ofEntries entries) := by
  have hlist : (listCheck "returns" (get entries "returns")).passes ↔
      isList (get entries "returns") = true := by
    cases get entries "returns" <;> simp [listCheck, isList]
  have hvalues := Makes.guard "expected a list of numbers" hlist (fun _ => id) fun _ =>
    of_fields_make entries
  have hknown :=
    names_make ((Entries.keys entries).mergeSort (· ≤ ·)) fields "unknown field" hvalues
  unfold checks ofEntries
  rw [List.append_assoc, sorted_unknown]
  refine names_make requiredFields _ "missing" ?_
  rw [← List.head?_filter] at hknown
  generalize ((Entries.keys entries).mergeSort (· ≤ ·)).filter (· ∉ fields) = unknown at hknown ⊢
  cases unknown with
  | nil => exact hknown
  | cons => exact hknown

/-! ## Valid metrics -/

/-- Metrics in which all numbers are finite, the win rate lies between zero and one, the counts are at
least one, and the returns of variants make a grid. -/
structure Valid (m : Metrics) : Prop where
  returns : ∀ x ∈ m.returns, Binary64.isFinite x = true
  sharpe : Binary64.isFinite m.sharpe = true
  max_drawdown : Binary64.isFinite m.maxDrawdown = true
  win_rate : Binary64.isFinite m.winRate = true ∧ IsShare m.winRate
  total_return : ∀ x ∈ m.totalReturn, Binary64.isFinite x = true
  trial_count : 1 ≤ m.trialCount
  variant_count : 1 ≤ m.variantCount
  variant_returns : ∀ rows ∈ m.variantReturns,
    IsGrid rows ∧ ∀ row ∈ rows, ∀ x ∈ row, Binary64.isFinite x = true

theorem optional_ok {α : Type} {entries : Entries Value} {field : String}
    {read : Value → Except Failure α} {x? : Option α} (h : optional entries field read = .ok x?) :
    ∀ x ∈ x?, ∃ v, read v = .ok x := by
  rintro x rfl
  unfold optional at h
  split at h
  · nomatch h
  · obtain ⟨y, hy, hsome⟩ := map_eq_ok.mp h
    exact ⟨_, Option.some.inj hsome ▸ hy⟩

theorem valid_of_fields {entries : Entries Value} {m : Metrics} (h : ofFields entries = .ok m) :
    m.Valid := by
  obtain ⟨hreturns, hsharpe, hdrawdown, hrate, htotal, htrials, hvariants, hshare, htable⟩ :=
    of_fields_eq_ok.mp h
  exact {
    returns := finite_items_ok hreturns
    sharpe := finite_ok hsharpe
    max_drawdown := finite_ok hdrawdown
    win_rate := ⟨finite_ok hrate, is_share_iff.mp hshare⟩
    total_return := fun x hx => (optional_ok htotal x hx).elim fun _ => finite_ok
    trial_count := (count_ok htrials).1
    variant_count := (count_ok hvariants).1
    variant_returns := fun rows hrows =>
      (optional_ok htable rows hrows).elim fun _ => variant_table_ok }

theorem fields_of_entries {entries : Entries Value} {m : Metrics} (h : ofEntries entries = .ok m) :
    ofFields entries = .ok m := by
  unfold ofEntries at h
  split at h
  · nomatch h
  · split at h
    · nomatch h
    · split at h
      · exact h
      · nomatch h

/-- A record gives metrics exactly when it passes all checks, and these are valid then. Otherwise the
first check that does not pass tells by the name of its field why the record is refused, or else it
is the one that ends by accident. -/
theorem valid_or_first_check_told (entries : Entries Value) :
    ((∃ m, ofEntries entries = .ok m) ↔ ∀ c ∈ checks entries, c.passes) ∧
      (∀ m, ofEntries entries = .ok m → m.Valid) ∧
      (∀ e, ofEntries entries = .error (.error e) → ∃ name reason, e = .invalidMetrics name reason ∧
        First (fun c => ¬ c.passes ∧ c.field = name) (checks entries)) ∧
      ∀ a, ofEntries entries = .error (.accident a) ↔ First (·.accident a) (checks entries) := by
  have hmade := of_entries_make entries
  refine ⟨hmade.passes, fun m h => ?_, hmade.refusal, hmade.accident⟩
  exact valid_of_fields (fields_of_entries h)

/-! ## Records -/

/-- The failure that a step ends with, if it does. -/
def failureOf {α : Type} : Except Failure α → Option Failure
  | .ok _ => none
  | .error f => some f

theorem failure_of_eq_none {α : Type} {x : Except Failure α} :
    failureOf x = none ↔ ∃ a, x = .ok a := by
  cases x <;> simp [failureOf]

theorem failure_of_eq_some {α : Type} {x : Except Failure α} {f : Failure} :
    failureOf x = some f ↔ x = .error f := by
  cases x <;> simp [failureOf]

/-- A record with numbers in all forms in which they are read. -/
def oddRecord : Entries Value :=
  [("returns", .list [.text " 1_0e-3", .bool true, .int 3]), ("sharpe", .float 1),
    ("max_drawdown", .text "-.2"), ("win_rate", .bool true), ("trial_count", .float 3),
    ("variant_returns", .list [.text "12", .table [("3", .null), ("4", .null)]])]

def recordOf (x : Value) (sharpe : Value) (others : Entries Value) : Entries Value :=
  [("returns", .list [.float 0, x]), ("sharpe", sharpe), ("max_drawdown", .float 0.5),
    ("win_rate", .float 0.5)] ++ others

def infiniteReturn : Entries Value := recordOf (.float (Binary64.infinity false)) (.float 1) []

def beyondRange : Entries Value := recordOf (.float 0) (.int (Int.pow 10 400)) []

def flatTable : Entries Value :=
  recordOf (.float 0) (.float 1) [("variant_returns", .list [.int 1, .int 2])]

theorem beyond_range_ends : ofEntries beyondRange = .error (.accident .outOfRange) :=
  failure_of_eq_some.mp (by decide +kernel)

theorem odd_record_valid_infinite_return_told :
    (∃ m, ofEntries oddRecord = .ok m ∧ m.Valid) ∧
      (∃ e, ofEntries infiniteReturn = .error (.error e) ∧ e.details = [("field", "returns[1]")] ∧
        First (fun c => ¬ c.passes ∧ c.field = "returns[1]") (checks infiniteReturn)) ∧
      First (·.accident .outOfRange) (checks beyondRange) := by
  have hinfinite : ofEntries infiniteReturn =
      .error (.error (.invalidMetrics "returns[1]" "must be finite")) :=
    failure_of_eq_some.mp (by decide +kernel)
  have hodd : ∃ m, ofEntries oddRecord = .ok m := failure_of_eq_none.mp (by decide +kernel)
  refine ⟨?_, ⟨_, hinfinite, rfl, ?_⟩, ?_⟩
  · obtain ⟨m, hm⟩ := hodd
    exact ⟨m, hm, (valid_or_first_check_told oddRecord).2.1 m hm⟩
  · obtain ⟨name, reason, he, hfirst⟩ :=
      (valid_or_first_check_told infiniteReturn).2.2.1 _ hinfinite
    cases he
    exact hfirst
  · exact ((valid_or_first_check_told beyondRange).2.2.2 .outOfRange).mp beyond_range_ends

/-- An integer beyond the range of doubles, a row of variants that is no list, and a list that holds
an integer that is too long to be shown are not refused. -/
theorem odd_values_not_refused :
    ofEntries beyondRange = .error (.accident .outOfRange) ∧
      ofEntries flatTable = .error (.accident .wrongKind) ∧
      ofEntries (recordOf (.float 0) (.list [.int (Int.pow 10 4300)]) []) =
        .error (.accident .wrongValue) :=
  ⟨beyond_range_ends, failure_of_eq_some.mp (by decide +kernel),
    failure_of_eq_some.mp (by decide +kernel)⟩

end BacktestAudit.Statistics.Metrics
