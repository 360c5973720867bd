import Mathlib.Data.List.Forall2
import BacktestAudit.Proofs.Flow.ReadPlaces

/-!
Shifts on the way through an expression. What is read in an expression is the same under every shift;
each read carries the shift that the expression stands under, with what it is shifted by on the way,
or it stands aside, where the shift of the whole does not reach.
-/
namespace BacktestAudit.Flow
open BacktestAudit.Syntax BacktestAudit.Source
set_option autoImplicit false

variable {imported : List String}

/-! ## Shifts one after the other -/

theorem add_shift_none (s : Shift) : addShift s none = none := by
  cases s <;> rfl

theorem add_shift_zero (s : Shift) : addShift s (some 0) = s := by
  cases s with
  | none => rfl
  | some n => exact congrArg some (Int.add_zero n)

theorem add_shift_assoc (a b c : Shift) : addShift (addShift a b) c = addShift a (addShift b c) := by
  cases a <;> cases b <;> cases c <;> try rfl
  exact congrArg some (Int.add_assoc _ _ _)

/-! ## Reads apart from the shift that they stand under -/

/-- How the shift of a read depends on the shift of the expression: it leads it by a number of
periods, or has nothing to do with it. -/
inductive Bearing where
  | carried (lead : Int)
  | settled (shift : Shift)

def Bearing.under : Bearing → Shift → Shift
  | .carried lead, s => addShift s (some lead)
  | .settled shift, _ => shift

/-- A read in an expression, whatever shift that stands under. -/
structure Mark where
  column : Column
  extent : Extent
  bearing : Bearing

namespace Mark

def occurrence (m : Mark) (s : Shift) : Occurrence := ⟨m.column, m.bearing.under s, m.extent⟩

/-- A read that keeps its shift, wherever the expression stands. -/
def ofOccurrence (o : Occurrence) : Mark := ⟨o.column, o.extent, .settled o.shift⟩

/-- The read in an expression that is shifted by a known amount. -/
def shiftedBy (amount : Int) (m : Mark) : Mark :=
  { m with bearing := match m.bearing with
      | .carried lead => .carried (amount + lead)
      | .settled shift => .settled shift }

theorem occurrence_shifted_by (amount : Int) (m : Mark) (s : Shift) :
    (m.shiftedBy amount).occurrence s = m.occurrence (addShift s (some amount)) := by
  obtain ⟨column, extent, bearing⟩ := m
  cases bearing with
  | carried lead =>
    have hunder : addShift s (some (amount + lead)) =
        addShift (addShift s (some amount)) (some lead) :=
      (add_shift_assoc s (some amount) (some lead)).symm
    simp only [shiftedBy, occurrence, Bearing.under, hunder]
  | settled shift => rfl

end Mark

/-! ## Places aside -/

/-- A part that the shift of an expression does not reach: the subscript, the arguments of a shift,
and what is shifted by an unknown amount. -/
inductive Aside : Expr → Expr → Prop
  | index {x : Extent} {value index : Expr} : Aside index (.subscript x value index)
  | argument {x : Extent} {func a : Expr} {arguments : List Expr} :
      calledName func = "shift" → a ∈ arguments → Aside a (.call x func arguments)
  | unknown {x y : Extent} {value : Expr} {arguments : List Expr} :
      shiftAmount arguments = none → Aside value (.call x (.member y value "shift") arguments)

/-- Whether a place is one of an expression in a part aside. -/
def LiesAside (e : Expr) (x : Extent) : Prop :=
  ∃ c part : Expr, c.Occurs e ∧ Aside part c ∧ StandsIn [part] x

theorem LiesAside.child {c e : Expr} {x : Extent} (h : LiesAside c x) (hc : c ∈ e.children) :
    LiesAside e x := by
  obtain ⟨d, part, hd, haside, hx⟩ := h
  exact ⟨d, part, .inside hc hd, haside, hx⟩

theorem Aside.lies {part e : Expr} {x : Extent} (h : Aside part e) (hx : StandsIn [part] x) :
    LiesAside e x :=
  ⟨e, part, .here, h, hx⟩

/-! ## Traces under every shift -/

/-- What is recorded under every shift: the same reads, each with its bearing, the ones that keep
their shift at places of a kind, and the same besides. -/
structure Bears (aside : Extent → Prop) (t : Shift → Trace) : Prop where
  calls (s s' : Shift) : (t s).calls = (t s').calls
  forward (s s' : Shift) : (t s).forward = (t s').forward
  range (s s' : Shift) : (t s).leavesRange = (t s').leavesRange
  reads : ∃ marks : List Mark,
    (∀ m ∈ marks, ∀ shift, m.bearing = .settled shift → aside m.extent) ∧
    ∀ s, (t s).reads = marks.map (·.occurrence s)

namespace Bears

variable {aside aside' : Extent → Prop} {t t' : Shift → Trace}

theorem columns (h : Bears aside t) (s s' : Shift) : (t s).columns = (t s').columns := by
  obtain ⟨marks, _, hreads⟩ := h.reads
  simp only [Trace.columns, hreads, List.map_map]
  rfl

theorem mono (h : Bears aside t) (himp : ∀ x, aside x → aside' x) : Bears aside' t where
  calls := h.calls
  forward := h.forward
  range := h.range
  reads := by
    obtain ⟨marks, haside, hreads⟩ := h.reads
    exact ⟨marks, fun m hm shift hb => himp _ (haside m hm shift hb), hreads⟩

theorem settled {t : Trace} (h : ∀ o ∈ t.reads, aside o.extent) : Bears aside fun _ => t where
  calls _ _ := rfl
  forward _ _ := rfl
  range _ _ := rfl
  reads := by
    refine ⟨t.reads.map .ofOccurrence, ?_, fun s => ?_⟩
    · intro m hm _ _
      obtain ⟨o, ho, rfl⟩ := List.mem_map.mp hm
      exact h o ho
    · rw [List.map_map]
      exact (List.map_id _).symm

theorem carried (columns : List (Column × Extent)) :
    Bears aside fun s => { Trace.empty with reads := columns.map fun (c, x) => ⟨c, s, x⟩ } where
  calls _ _ := rfl
  forward _ _ := rfl
  range _ _ := rfl
  reads := by
    refine ⟨columns.map fun (c, x) => ⟨c, x, .carried 0⟩, ?_, fun s => ?_⟩
    · intro m hm shift hb
      obtain ⟨_, _, rfl⟩ := List.mem_map.mp hm
      nomatch hb
    · simp only [List.map_map, Function.comp_def, Mark.occurrence, Bearing.under, add_shift_zero]

theorem read (column : Column) (x : Extent) : Bears aside fun s => .read column s x :=
  carried [(column, x)]

theorem append (h : Bears aside t) (h' : Bears aside t') : Bears aside fun s => t s ++ t' s where
  calls s s' := congrArg₂ (· ++ ·) (h.calls s s') (h'.calls s s')
  forward s s' := congrArg₂ (· ++ ·) (h.forward s s') (h'.forward s s')
  range s s' := congrArg₂ (· || ·) (h.range s s') (h'.range s s')
  reads := by
    obtain ⟨marks, haside, hreads⟩ := h.reads
    obtain ⟨marks', haside', hreads'⟩ := h'.reads
    refine ⟨marks ++ marks', fun m hm => ?_, fun s => ?_⟩
    · rcases List.mem_append.mp hm with hm | hm
      · exact haside m hm
      · exact haside' m hm
    · rw [Trace.reads_append, hreads, hreads', List.map_append]

theorem shifted (h : Bears aside t) (amount : Int) :
    Bears aside fun s => t (addShift s (some amount)) where
  calls _ _ := h.calls _ _
  forward _ _ := h.forward _ _
  range _ _ := h.range _ _
  reads := by
    obtain ⟨marks, haside, hreads⟩ := h.reads
    refine ⟨marks.map (.shiftedBy amount), ?_, fun s => ?_⟩
    · intro m hm shift hb
      obtain ⟨m, hmem, rfl⟩ := List.mem_map.mp hm
      cases hbearing : m.bearing with
      | carried lead =>
        simp only [Mark.shiftedBy, hbearing] at hb
        nomatch hb
      | settled shift' => exact haside m hmem shift' hbearing
    · rw [hreads, List.map_map]
      exact List.map_congr_left fun m _ => (m.occurrence_shifted_by amount s).symm

end Bears

/-! ## Scans under every shift -/

/-- A call records itself with the columns read in its parts, under whatever shift. -/
theorem Bears.call {aside : Extent → Prop} {receiver args : Shift → Trace} (x : Extent)
    (func : Expr) (arguments : List Expr) (hreceiver : Bears aside receiver) (hargs : Bears aside args) :
    Bears aside fun s => receiver s ++ args s ++
      { Trace.empty with
        calls := [callSite imported x func arguments (receiver s).columns (args s).columns]
        leavesRange := arguments.any argumentLeavesRange } := by
  have hsite : (fun s => receiver s ++ args s ++
      { Trace.empty with
        calls := [callSite imported x func arguments (receiver s).columns (args s).columns]
        leavesRange := arguments.any argumentLeavesRange }) =
      fun s => receiver s ++ args s ++
        { Trace.empty with
          calls := [callSite imported x func arguments (receiver (some 0)).columns
            (args (some 0)).columns]
          leavesRange := arguments.any argumentLeavesRange } := by
    funext s
    rw [hreceiver.columns s (some 0), hargs.columns s (some 0)]
  rw [hsite]
  exact (hreceiver.append hargs).append (.settled nofun)

mutual

theorem scan_bears (e : Expr) : Bears (LiesAside e) fun s => scan imported s e := by
  cases e with
  | name x id role =>
    simp only [scan]
    split
    · exact .read _ x
    · exact .settled nofun
  | constant x v => exact .settled nofun
  | member x value attr =>
    by_cases hname : ∃ at_ base role, value = .name at_ base role
    · obtain ⟨at_, base, role, rfl⟩ := hname
      simp only [scan]
      split
      · exact .settled nofun
      · split
        · exact .read _ at_
        · exact .read _ x
    · simp only [scan_member_of_ne fun at_ id role h => hname ⟨at_, id, role, h⟩]
      exact (scan_bears value).mono fun _ h => h.child (List.mem_singleton_self _)
  | subscript x value index =>
    have hahead : Bears (LiesAside (.subscript x value index)) fun _ => forwardTrace x index :=
      .settled nofun
    cases hc : columnOf? imported value index with
    | some c =>
      simp only [scan_column hc]
      refine hahead.append ((Bears.read c x).append (.settled ?_))
      unfold rowsTrace
      split
      · cases index with
        | tuple y parts =>
          intro o ho
          have hstands := (scan_init_reads_in parts).enclose
            (e := .tuple y parts) (List.Subset.refl _) o ho
          exact Aside.index.lies hstands
        | _ => nofun
      · nofun
    | none =>
      cases hk : keyColumns? value index with
      | some columns =>
        simp only [scan_keys hc hk]
        exact hahead.append (.carried columns)
      | none =>
        simp only [scan_parts hc hk]
        have hvalue := (scan_bears value).mono fun _ h =>
          h.child (e := .subscript x value index) (List.mem_cons_self ..)
        exact hahead.append (hvalue.append (.settled fun o ho =>
          Aside.index.lies (scan_reads_in (some 0) index o ho)))
  | call x func arguments =>
    simp only [scan_call]
    refine .call x func arguments (receiver_bears x func arguments) ?_
    by_cases hshift : calledName func = "shift"
    · -- The arguments of a shift are scanned under no shift.
      simp only [hshift, beq_self_eq_true, if_true]
      refine .settled fun o ho => ?_
      obtain ⟨a, ha, hstands⟩ := scan_all_reads_in (some 0) arguments o ho
      exact (Aside.argument hshift ha).lies ⟨a, List.mem_singleton_self a, hstands⟩
    · simp only [beq_iff_eq, hshift, if_false]
      exact (scan_all_bears arguments).mono fun _ h => by
        obtain ⟨a, ha, h⟩ := h
        exact h.child (List.mem_cons_of_mem _ ha)
  | keyword x name value | starred x value | unary x op value =>
    simp only [scan]
    exact (scan_bears value).mono fun _ h => h.child (List.mem_singleton_self _)
  | binary x op l r =>
    simp only [scan]
    exact ((scan_bears l).mono fun _ h => h.child (List.mem_cons_self ..)).append
      ((scan_bears r).mono fun _ h =>
        h.child (List.mem_cons_of_mem _ (List.mem_singleton_self _)))
  | tuple x es | list x es | set x es | composite x form es =>
    simp only [scan]
    exact (scan_all_bears es).mono fun _ h => by
      obtain ⟨e, he, h⟩ := h
      exact h.child he
  | dict x ks vs =>
    simp only [scan]
    refine .append ((scan_all_bears ks).mono fun _ h => ?_) ((scan_all_bears vs).mono fun _ h => ?_)
    · obtain ⟨e, he, h⟩ := h
      exact h.child (List.mem_append_left _ he)
    · obtain ⟨e, he, h⟩ := h
      exact h.child (List.mem_append_right _ he)

theorem receiver_bears (x : Extent) (func : Expr) (arguments : List Expr) :
    Bears (LiesAside (.call x func arguments)) fun s =>
      receiverTrace imported (innerShift imported s func arguments) func := by
  have hfunc : func ∈ (Expr.call x func arguments).children := List.mem_cons_self ..
  have hinner : ∀ amount, Bears (LiesAside (.call x func arguments)) fun s =>
      receiverTrace imported (addShift s (some amount)) func := by
    intro amount
    by_cases hmember : ∃ at_ v attr, func = .member at_ v attr
    · obtain ⟨at_, v, attr, rfl⟩ := hmember
      exact ((scan_bears v).mono fun _ h =>
        (h.child (List.mem_singleton_self _)).child hfunc).shifted amount
    · by_cases hname : ∃ at_ id role, func = .name at_ id role
      · obtain ⟨at_, id, role, rfl⟩ := hname
        exact .settled nofun
      · simp only [receiver_of_ne (fun at_ v attr h => hmember ⟨at_, v, attr, h⟩)
          fun at_ id role h => hname ⟨at_, id, role, h⟩]
        exact ((scan_bears func).mono fun _ h => h.child hfunc).shifted amount
  by_cases hshift : (calledName func == "shift" && !isFunctionCall imported func) = true
  · cases hamount : shiftAmount arguments with
    | some amount =>
      simp only [innerShift, hshift, if_true, hamount]
      exact hinner amount
    | none =>
      -- Nothing that is shifted by an unknown amount bears the shift of the whole.
      simp only [innerShift, hshift, if_true, hamount, add_shift_none]
      rw [Bool.and_eq_true, beq_iff_eq] at hshift
      cases func with
      | member y v attr =>
        obtain rfl : attr = "shift" := hshift.1
        exact .settled fun o ho => (Aside.unknown hamount).lies (scan_reads_in none v o ho)
      | name => exact .settled nofun
      | _ => exact absurd hshift.1 (by simp [calledName])
  · simp only [innerShift, if_neg hshift]
    simpa only [add_shift_zero] using hinner 0

theorem scan_all_bears (es : List Expr) :
    Bears (fun x => ∃ e ∈ es, LiesAside e x) fun s => scanAll imported s es := by
  cases es with
  | nil => exact .settled nofun
  | cons e es =>
    simp only [scanAll]
    exact ((scan_bears e).mono fun _ h => ⟨e, List.mem_cons_self .., h⟩).append
      ((scan_all_bears es).mono fun _ h => by
        obtain ⟨d, hd, h⟩ := h
        exact ⟨d, List.mem_cons_of_mem e hd, h⟩)

end

/-! ## Larger shifts -/

/-- A read that is also found under a shift that is larger by `k`: there its own shift is larger by
just as much, or it is the same, at a place of a kind. -/
structure Read.Raised (aside : Extent → Prop) (k : Int) (r r' : Read) : Prop where
  column_eq : r'.column = r.column
  source_eq : r'.source = r.source
  extent_eq : r'.extent = r.extent
  shift_raised : (r'.shift = r.shift ∧ aside r.extent) ∨
    ∃ n, r.shift = some n ∧ r'.shift = some (n + k)

/-- What the read refers to at some point, in an expression that stands under a shift. -/
def Mark.read (m : Mark) (p : Progress) (s : Shift) : Read := p.resolve (m.occurrence s)

theorem Mark.read_raised {aside : Extent → Prop} {m : Mark}
    (h : ∀ shift, m.bearing = .settled shift → aside m.extent) (p : Progress) (s k : Int) :
    Read.Raised aside k (m.read p (some s)) (m.read p (some (s + k))) where
  column_eq := rfl
  source_eq := rfl
  extent_eq := rfl
  shift_raised := by
    obtain ⟨column, extent, bearing⟩ := m
    cases bearing with
    | carried lead =>
      exact .inr ⟨s + lead, rfl, congrArg some (by omega)⟩
    | settled shift => exact .inl ⟨rfl, h shift rfl⟩

/-- The receiver of a shift is scanned under the sum of the shifts. -/
theorem scan_shift_reads (s : Shift) (x y : Extent) (e : Expr) (arguments : List Expr) :
    (scan imported s (.call x (.member y e "shift") arguments)).reads =
      (scan imported (addShift s (shiftAmount arguments)) e).reads ++
        (scanAll imported (some 0) arguments).reads := by
  have hreceiver : (scan imported (innerShift imported s (.member y e "shift") arguments) e).reads =
      (scan imported (addShift s (shiftAmount arguments)) e).reads := by
    by_cases hfunction : isFunctionCall imported (.member y e "shift") = true
    · -- Nothing is read in the name of something that is imported.
      cases e with
      | name z id role =>
        have hid : id ∈ imported := of_decide_eq_true hfunction
        simp only [scan, hid, not_true_eq_false, and_false, if_false]
      | _ => nomatch hfunction
    · have hinner : innerShift imported s (.member y e "shift") arguments =
          addShift s (shiftAmount arguments) := by
        simp only [innerShift, calledName, hfunction, beq_self_eq_true, Bool.not_false,
          Bool.and_self, if_true]
      rw [hinner]
  rw [scan_call]
  simp only [Trace.reads_append, Trace.reads_empty, List.append_nil, calledName, beq_self_eq_true,
    if_true, receiverTrace, hreceiver]

/-- Shifts add up on the way through an expression. Under every shift the same calls and steps ahead
are recorded and the same reads, at the same places and from the same assignments; under a shift that
is larger by `k` each read is shifted by `k` more, or by the same where it lies aside. What is
shifted in its turn is read as under the sum of both shifts, which is unknown if the amount is. -/
theorem shifts_compose (imported : List String) (e : Expr) :
    (∀ s s' : Shift, (scan imported s e).calls = (scan imported s' e).calls ∧
      (scan imported s e).forward = (scan imported s' e).forward ∧
      (scan imported s e).leavesRange = (scan imported s' e).leavesRange) ∧
    (∀ (p : Progress) (s k : Int), List.Forall₂ (Read.Raised (LiesAside e) k)
      ((scan imported (some s) e).reads.map p.resolve)
      ((scan imported (some (s + k)) e).reads.map p.resolve)) ∧
    ∃ marks : List Mark,
      (∀ m ∈ marks, ∀ shift, m.bearing = .settled shift → LiesAside e m.extent) ∧
      (∀ (p : Progress) (s : Shift),
        (scan imported s e).reads.map p.resolve = marks.map (·.read p s)) ∧
      ∀ (p : Progress) (s : Shift) (x y : Extent) (arguments : List Expr),
        (scan imported s (.call x (.member y e "shift") arguments)).reads.map p.resolve =
          marks.map (·.read p (addShift s (shiftAmount arguments))) ++
            (scanAll imported (some 0) arguments).reads.map p.resolve := by
  have hbears : Bears (LiesAside e) fun s => scan imported s e := scan_bears e
  obtain ⟨marks, haside, hreads⟩ := hbears.reads
  have hresolved : ∀ (p : Progress) (s : Shift),
      (scan imported s e).reads.map p.resolve = marks.map (·.read p s) := by
    intro p s
    rw [hreads s, List.map_map]
    rfl
  refine ⟨fun s s' => ⟨hbears.calls s s', hbears.forward s s', hbears.range s s'⟩,
    fun p s k => ?_, marks, haside, hresolved, fun p s x y arguments => ?_⟩
  · rw [hresolved, hresolved, List.forall₂_map_left_iff, List.forall₂_map_right_iff,
      List.forall₂_same]
    exact fun m hm => m.read_raised (haside m hm) p s k
  · rw [scan_shift_reads, List.map_append, hresolved]

end BacktestAudit.Flow
