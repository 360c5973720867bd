import Mathlib.Algebra.BigOperators.Group.List.Basic
import Mathlib.Algebra.Ring.Int.Defs
import BacktestAudit.Proofs.Flow.Carried
import BacktestAudit.Proofs.Flow.LagOrder
import BacktestAudit.Proofs.Flow.Spelling
import BacktestAudit.Proofs.Syntax.Literals

/-!
Chains of shifts. A column from outside may be shifted step by step within one expression or over
several assignments. In one expression the shifts are summed up first; over assignments each of them
is added to the lag of the one before.
-/
namespace BacktestAudit.Flow
open BacktestAudit.Syntax BacktestAudit.Source
set_option autoImplicit false

variable {imported : List String}

/-! ## Shifted expressions -/

/-- The expression `f` is `e` shifted by an integer literal, in place or by name. -/
inductive ShiftedBy (e : Expr) (k : Int) : Expr → Prop
  | inPlace {x y : Extent} {amount : Expr} : amount.literal? = some (.int k) →
      ShiftedBy e k (.call x (.member y e "shift") [amount])
  | byName {x y z : Extent} {amount : Expr} : amount.literal? = some (.int k) →
      ShiftedBy e k (.call x (.member y e "shift") [.keyword z (some "periods") amount])

/-- The expression `f` is `e` shifted by one literal after the other. -/
inductive ShiftedByAll : Expr → List Int → Expr → Prop
  | nil {e : Expr} : ShiftedByAll e [] e
  | cons {e f g : Expr} {k : Int} {ks : List Int} :
      ShiftedBy e k f → ShiftedByAll f ks g → ShiftedByAll e (k :: ks) g

/-- One column is all that an expression reads, shifted by a number of periods. -/
def ReadsAlone (imported : List String) (e : Expr) (c : Column) (a : Int) : Prop :=
  ∃ x, ∀ s, (scan imported s e).reads = [⟨c, addShift s (some a), x⟩]

theorem ReadsAlone.of_name (x : Extent) {id : String} (h : id ∉ imported) :
    ReadsAlone imported (.name x id .read) (.ofVariable id) 0 := by
  refine ⟨x, fun s => ?_⟩
  rw [scan, if_pos ⟨rfl, h⟩, add_shift_zero]
  rfl

/-- A column of a dataset reads itself alone, unless rows of it are selected. -/
theorem ReadsAlone.of_spelled {base e : Expr} {dataset name : String}
    (h : IsDataset imported base dataset) (hname : name ∉ indexers ∧ name ∉ frameMembers)
    (hspells : Spells base name e) (hreadable : isReadable base e = true) (hrows : rowsOf e = []) :
    ReadsAlone imported e ⟨dataset, name⟩ 0 := by
  refine ⟨e.extent, fun s => ?_⟩
  rw [scan_columns_of_spells h hname hspells hreadable s, hrows, add_shift_zero]
  rfl

theorem scan_of_int {e : Expr} {n : Int} (h : e.literal? = some (.int n)) (s : Shift) :
    (scan imported s e).reads = [] := by
  obtain ⟨x, v, rfl⟩ | ⟨x, op, y, v, rfl⟩ := Expr.shape_of_int h <;> rfl

theorem ShiftedBy.reads {e f : Expr} {k : Int} (h : ShiftedBy e k f) (s : Shift) :
    (scan imported s f).reads = (scan imported (addShift s (some k)) e).reads := by
  cases h with
  | @inPlace x y amount hamount =>
    have hpositional : Expr.positional [amount] = [amount] := by
      obtain ⟨_, _, rfl⟩ | ⟨_, _, _, _, rfl⟩ := Expr.shape_of_int hamount <;> rfl
    have hshift : shiftAmount [amount] = some k := by
      obtain ⟨_, _, rfl⟩ | ⟨_, _, _, _, rfl⟩ := Expr.shape_of_int hamount <;>
        simp only [shiftAmount, shiftArgument?, hpositional, List.foldl_cons, List.foldl_nil,
          List.head?_cons, hamount, Option.bind_some, Literal.int?]
    rw [scan_shift_reads, hshift, scanAll, scanAll, Trace.reads_append, scan_of_int hamount]
    exact List.append_nil _
  | @byName x y z amount hamount =>
    have hshift : shiftAmount [.keyword z (some "periods") amount] = some k := by
      simp only [shiftAmount, shiftArgument?, List.foldl_cons, List.foldl_nil, hamount,
        Option.bind_some, Literal.int?]
    rw [scan_shift_reads, hshift, scanAll, scanAll, Trace.reads_append, scan, scan_of_int hamount]
    exact List.append_nil _

theorem ShiftedBy.alone {e f : Expr} {k a : Int} {c : Column} (h : ShiftedBy e k f)
    (he : ReadsAlone imported e c a) : ReadsAlone imported f c (k + a) := by
  obtain ⟨x, he⟩ := he
  refine ⟨x, fun s => ?_⟩
  rw [h.reads, he, add_shift_assoc]
  rfl

theorem ShiftedByAll.alone {e f : Expr} {ks : List Int} {a : Int} {c : Column}
    (h : ShiftedByAll e ks f) (he : ReadsAlone imported e c a) :
    ReadsAlone imported f c (ks.sum + a) := by
  induction h generalizing a with
  | nil => rwa [List.sum_nil, Int.zero_add]
  | @cons _ _ _ k ks hfirst _ ih =>
    have hsum : (k :: ks).sum + a = ks.sum + (k + a) := by
      rw [List.sum_cons]
      omega
    rw [hsum]
    exact ih (hfirst.alone he)

/-! ## Lags of assignments -/

/-- The lag of the last assignment of a column, if there is one. -/
def Progress.lagOf? (p : Progress) (c : Column) : Option Lag :=
  ((p.lastWrite? c).bind (p.graph.assignments[·]?)).map (·.lag)

/-- A read of the column adds its shift to a lag, and is of no constant. -/
def Progress.Lags (p : Progress) (c : Column) (lag : Lag) : Prop :=
  ∀ s x, (p.resolve ⟨c, s, x⟩).lag = Lag.shifted lag s ∧
    (p.resolve ⟨c, s, x⟩).sourceIsConstant = false

theorem lags_of_outside {p : Progress} {c : Column} (h : p.lastWrite? c = none) :
    p.Lags c Lag.unknown := by
  intro s x
  simp only [Progress.resolve, h, Option.bind_none, Option.map_none, Option.getD_none, and_self]

theorem combine_single (lag : Lag) : Lag.combine [lag] = lag :=
  List.mem_singleton.mp (Lag.combine_mem (List.cons_ne_nil lag []))

/-- What is recorded with one read takes over its lag, unless that is of a constant. -/
theorem recorded_with_one (p : Progress) (t : Column) (f : Expr) (place : Lines) {r : Read}
    (hr : r.sourceIsConstant = false) :
    ∃ b : Assignment, ((p.record t f place [r]).lastWrite? t).bind
        ((p.record t f place [r]).graph.assignments[·]?) = some b ∧
      b.lag = r.lag ∧ b.isConstant = false := by
  have hinformative : [r].filter (!·.sourceIsConstant) = [r] := by
    rw [List.filter_cons, hr]
    rfl
  let b : Assignment := ⟨p.graph.assignments.size, t, f, place, [r], r.lag, false⟩
  have hrecorded : (p.record t f place [r]).graph.assignments = p.graph.assignments.push b := by
    simp only [Progress.record, hinformative, List.isEmpty_cons, Bool.false_eq_true, if_false,
      List.map_cons, List.map_nil, combine_single, b]
  refine ⟨b, ?_, rfl, rfl⟩
  rw [last_write_record, if_pos rfl, hrecorded]
  exact Array.getElem?_push_size

/-- An assignment of a value to a name records what the value reads. -/
theorem assign_name (imported : List String) (p : Progress) (place : Lines) (z : Extent) (t : String)
    (role : NameRole) (f : Expr) : ∃ (q : Progress) (ds : List Derivation),
      assign imported place [.name z t role] f p = (q.record (.ofVariable t) f place
        ((scan imported (some 0) f).reads.map p.resolve)).derive ds :=
  ⟨p.absorb ((scan imported (some 0) f).within p.graph.assignments.size),
    (derivation? (.name z t role) f place).toList, rfl⟩

theorem lag_of_alone {p : Progress} {f : Expr} {c : Column} {a : Int} {lag : Lag}
    (hf : ReadsAlone imported f c a) (hlag : p.Lags c lag) (x z : Extent) (t : String) :
    let q := visit imported p (.assign x [.name z t .bind] f)
    q.lagOf? (.ofVariable t) = some (Lag.shifted lag (some a)) ∧
      q.Lags (.ofVariable t) (Lag.shifted lag (some a)) := by
  intro q
  obtain ⟨y, hreads⟩ := hf
  obtain ⟨hread, hconstant⟩ := hlag (some a) y
  have hassigned : ∃ b : Assignment, (q.lastWrite? (.ofVariable t)).bind
      (q.graph.assignments[·]?) = some b ∧
        b.lag = Lag.shifted lag (some a) ∧ b.isConstant = false := by
    obtain ⟨q₀, ds, hq⟩ := assign_name imported p x.lines z t .bind f
    have hzero : addShift (some 0) (some a) = some a := congrArg some (Int.zero_add a)
    rw [hreads, hzero, List.map_cons, List.map_nil] at hq
    have hq : q = _ := hq
    obtain ⟨b, hb, hblag, hbconstant⟩ := recorded_with_one q₀ (.ofVariable t) f x.lines hconstant
    rw [hq]
    exact ⟨b, hb, hblag.trans hread, hbconstant⟩
  obtain ⟨b, hb, hblag, hbconstant⟩ := hassigned
  refine ⟨?_, fun s x' => ?_⟩
  · rw [Progress.lagOf?, hb, Option.map_some, hblag]
  · simp only [Progress.resolve, hb, Option.map_some, Option.getD_some, hblag, hbconstant, and_self]

/-! ## One assignment and several -/

/-- Assignments that shift an expression by one literal each, over names that are not defined
otherwise, down to the name `y`. -/
inductive Cut (imported : List String) (y : String) : Expr → List Int → List Stmt → Prop
  | last {e f : Expr} {k : Int} {x z : Extent} : ShiftedBy e k f →
      Cut imported y e [k] [.assign x [.name z y .bind] f]
  | step {e f : Expr} {k : Int} {ks : List Int} {x z w : Extent} {t : String} {rest : List Stmt} :
      ShiftedBy e k f → t ∉ imported → Cut imported y (.name w t .read) ks rest →
      Cut imported y e (k :: ks) (.assign x [.name z t .bind] f :: rest)

/-- Over several assignments each shift is added to the lag so far. -/
theorem Cut.lag {e : Expr} {ks : List Int} {y : String} {steps : List Stmt} {c : Column} {lag : Lag}
    {p : Progress} (h : Cut imported y e ks steps) (he : ReadsAlone imported e c 0)
    (hlag : p.Lags c lag) :
    (visitAll imported p steps).lagOf? (.ofVariable y) =
      some (ks.foldl (fun lag k => Lag.shifted lag (some k)) lag) := by
  induction h generalizing c lag p with
  | @last e f k x z hf =>
    rw [visit_all_singleton]
    have hassigned := (lag_of_alone (hf.alone he) hlag x z y).1
    rwa [Int.add_zero] at hassigned
  | @step e f k ks x z w t rest hf ht _ ih =>
    have hassigned := (lag_of_alone (hf.alone he) hlag x z t).2
    rw [Int.add_zero] at hassigned
    rw [visitAll, List.foldl_cons]
    exact ih (.of_name w ht) hassigned

theorem shifted_all_known (ks : List Int) (n : Int) :
    ks.foldl (fun lag k => Lag.shifted lag (some k)) (some n) = some (n + ks.sum) := by
  induction ks generalizing n with
  | nil => rw [List.foldl_nil, List.sum_nil, Int.add_zero]
  | cons k ks ih => rw [List.foldl_cons, Lag.shifted, ih, List.sum_cons, Int.add_assoc]

theorem shifted_all_unknown (ks : List Int) :
    ks.foldl (fun lag k => Lag.shifted lag (some k)) Lag.unknown =
      if ∀ k ∈ ks, k = 0 then Lag.unknown else some ks.sum := by
  induction ks with
  | nil => simp only [List.foldl_nil, List.not_mem_nil, false_implies, implies_true, if_true]
  | cons k ks ih =>
    rw [List.foldl_cons]
    by_cases hk : k = 0
    · subst hk
      have hfirst : Lag.shifted Lag.unknown (some 0) = Lag.unknown := rfl
      rw [hfirst, ih, List.sum_cons, Int.zero_add]
      simp only [List.forall_mem_cons, true_and]
    · have hfirst : Lag.shifted Lag.unknown (some k) = some k := by
        simp only [Lag.shifted, Lag.unknown, hk, if_false]
      have hsome : ¬∀ l ∈ k :: ks, l = 0 := fun h => hk (h k (List.mem_cons_self ..))
      rw [hfirst, shifted_all_known, if_neg hsome, List.sum_cons]

/-- A column from outside that is shifted by integer literals has the sum of them as its lag. What
tells nothing is a shift by nothing: in one expression a sum of zero, over several assignments a
zero at every step. So cutting a chain of shifts into assignments keeps the lag unless the shifts
cancel out. -/
theorem lag_of_cut_shifts (imported : List String) {p : Progress} {e f : Expr} {c : Column}
    {ks : List Int} {y : String} {steps : List Stmt} (he : ReadsAlone imported e c 0)
    (houtside : p.lastWrite? c = none) (hwhole : ShiftedByAll e ks f)
    (hcut : Cut imported y e ks steps) (x z : Extent) :
    let single := (visit imported p (.assign x [.name z y .bind] f)).lagOf? (.ofVariable y)
    let chain := (visitAll imported p steps).lagOf? (.ofVariable y)
    single = some (if ks.sum = 0 then Lag.unknown else some ks.sum) ∧
      chain = some (if ∀ k ∈ ks, k = 0 then Lag.unknown else some ks.sum) ∧
      (single = chain ↔ ks.sum ≠ 0 ∨ ∀ k ∈ ks, k = 0) := by
  intro single chain
  have hsingle : single = some (if ks.sum = 0 then Lag.unknown else some ks.sum) := by
    have hlag := (lag_of_alone (hwhole.alone he) (lags_of_outside houtside) x z y).1
    rwa [Int.add_zero] at hlag
  have hchain : chain = some (if ∀ k ∈ ks, k = 0 then Lag.unknown else some ks.sum) :=
    (hcut.lag he (lags_of_outside houtside)).trans (congrArg some (shifted_all_unknown ks))
  refine ⟨hsingle, hchain, ?_⟩
  rw [hsingle, hchain, Option.some.injEq]
  by_cases hall : ∀ k ∈ ks, k = 0
  · have hsum : ks.sum = 0 := List.sum_eq_zero hall
    rw [if_pos hsum, if_pos hall]
    exact iff_of_true rfl (.inr hall)
  · rw [if_neg hall]
    by_cases hsum : ks.sum = 0
    · rw [if_pos hsum]
      exact iff_of_false nofun fun h => h.elim (· hsum) hall
    · rw [if_neg hsum]
      exact iff_of_true rfl (.inl hsum)

def closes : Expr :=
  .subscript ⟨4, 11, 1, 1⟩ (.name ⟨4, 6, 1, 1⟩ "df" .read) (.constant ⟨7, 10, 1, 1⟩ (.str "c"))

def shiftedOn (e amount : Expr) : Expr :=
  .call e.extent (.member e.extent e "shift") [amount]

def two : Expr := .constant ⟨18, 19, 1, 1⟩ (.int 2)

def minusOne : Expr := .unary ⟨18, 20, 2, 2⟩ .minus (.constant ⟨19, 20, 2, 2⟩ (.int 1))

/-- The shifts over two assignments. -/
def closesCut : List Stmt :=
  [.assign ⟨0, 20, 1, 1⟩ [.name ⟨0, 1, 1, 1⟩ "t" .bind] (shiftedOn closes two),
    .assign ⟨21, 36, 2, 2⟩ [.name ⟨21, 22, 2, 2⟩ "y" .bind]
      (shiftedOn (.name ⟨25, 26, 2, 2⟩ "t" .read) minusOne)]

theorem lag_of_cut_closes :
    ReadsAlone [] closes ⟨"df", "c"⟩ 0 ∧
      ShiftedByAll closes [2, -1] (shiftedOn (shiftedOn closes two) minusOne) ∧
      Cut [] "y" closes [2, -1] closesCut ∧
      (visit [] ⟨Graph.start ⟨"", "unit", []⟩, []⟩ (.assign ⟨0, 30, 1, 1⟩
          [.name ⟨0, 1, 1, 1⟩ "y" .bind] (shiftedOn (shiftedOn closes two) minusOne))).lagOf?
        (.ofVariable "y") = some (some 1) ∧
      (visitAll [] ⟨Graph.start ⟨"", "unit", []⟩, []⟩ closesCut).lagOf? (.ofVariable "y") =
        some (some 1) := by
  have hframe : IsDataset [] (.name ⟨4, 6, 1, 1⟩ "df" .read) "df" :=
    ⟨rfl, fun id hid => ⟨nofun, Option.some.inj hid ▸ by decide⟩, nofun⟩
  have hcloses : ReadsAlone [] closes ⟨"df", "c"⟩ 0 :=
    .of_spelled hframe (by decide) (.key _ _) rfl rfl
  have hwhole : ShiftedByAll closes [2, -1] (shiftedOn (shiftedOn closes two) minusOne) :=
    .cons (.inPlace rfl) (.cons (.inPlace rfl) .nil)
  have hcut : Cut [] "y" closes [2, -1] closesCut :=
    .step (.inPlace rfl) nofun (.last (.inPlace rfl))
  obtain ⟨hsingle, hchain, _⟩ := lag_of_cut_shifts [] (p := ⟨Graph.start ⟨"", "unit", []⟩, []⟩)
    hcloses rfl hwhole hcut ⟨0, 30, 1, 1⟩ ⟨0, 1, 1, 1⟩
  exact ⟨hcloses, hwhole, hcut, hsingle, hchain⟩

/-- A column is shifted forth and back, at once and over two assignments. -/
def forthAndBack : String := "y = c.shift(1).shift(-1)\nt = c.shift(1)\nz = t.shift(-1)\n"

/-- Nothing is known of the lag of the one; the other has none. -/
theorem cancelled_shifts_differ :
    ∃ unit, SourceUnit.parse forthAndBack "shifts" = .ok unit ∧
      ((Graph.ofUnit unit).assignments.toList.map fun a => (a.target, a.lag)) =
        [(.ofVariable "y", none), (.ofVariable "t", some 1), (.ofVariable "z", some 0)] := by
  have hfacts : SourceUnit.parsesTo forthAndBack "shifts" (fun unit => decide
      (((Graph.ofUnit unit).assignments.toList.map fun a => (a.target, a.lag)) =
        [(.ofVariable "y", none), (.ofVariable "t", some 1), (.ofVariable "z", some 0)])) =
      true := by
    decide +kernel
  obtain ⟨unit, hparse, hunit⟩ := SourceUnit.parses_to_iff.mp hfacts
  exact ⟨unit, hparse, of_decide_eq_true hunit⟩

end BacktestAudit.Flow
