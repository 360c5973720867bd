import BacktestAudit.Proofs.Flow.Scan
import BacktestAudit.Proofs.Syntax.Unplaced

/-!
Scans of expressions apart from their places. What an expression reads, and under which shifts, does
not depend on where its parts stand.
-/
namespace BacktestAudit.Flow
open BacktestAudit.Syntax BacktestAudit.Source
set_option autoImplicit false

variable {imported : List String}

/-! ## What is read, without its places -/

/-- The columns that are read, each with the shift that the read stands under. -/
def Trace.shifts (t : Trace) : List (Column × Shift) := t.reads.map fun o => (o.column, o.shift)

@[simp] theorem shifts_append (a b : Trace) : (a ++ b).shifts = a.shifts ++ b.shifts :=
  List.map_append

@[simp] theorem shifts_read (column : Column) (shift : Shift) (x : Extent) :
    (Trace.read column shift x).shifts = [(column, shift)] := rfl

@[simp] theorem shifts_forward (x : Extent) (index : Expr) : (forwardTrace x index).shifts = [] :=
  rfl

@[simp] theorem shifts_of_calls (sites : List CallSite) (leaves : Bool) :
    ({ Trace.empty with calls := sites, leavesRange := leaves } : Trace).shifts = [] := rfl

/-! ## Datasets and columns -/

@[simp] theorem alias_unplaced (e : Expr) : alias? e.unplaced = alias? e := by
  cases e with
  | member x value attr => rw [Expr.unplaced, alias?, alias?, alias_unplaced value]
  | _ => rfl

theorem elements_unplaced (e : Expr) :
    elements? e.unplaced = (elements? e).map (·.map Expr.unplaced) := by
  cases e with
  | tuple x es | list x es => exact congrArg some (Expr.unplaced_all_eq es)
  | _ => rfl

theorem last_element_unplaced (e : Expr) :
    lastElement? e.unplaced = (lastElement? e).map Expr.unplaced := by
  cases e with
  | tuple x es =>
    rw [Expr.unplaced, lastElement?, lastElement?, Expr.unplaced_all_eq, List.getLast?_map]
  | _ => rfl

theorem column_parts_unplaced (value index : Expr) :
    columnParts? value.unplaced index.unplaced =
      (columnParts? value index).map fun (container, key) => (container.unplaced, key.unplaced) := by
  cases value with
  | member x container attr =>
    rw [Expr.unplaced, columnParts?, columnParts?]
    split
    · rw [last_element_unplaced, Option.map_map, Option.map_map]
      rfl
    · rfl
  | _ => rfl

@[simp] theorem column_of_unplaced (value index : Expr) :
    columnOf? imported value.unplaced index.unplaced = columnOf? imported value index := by
  unfold columnOf?
  rw [column_parts_unplaced]
  cases columnParts? value index with
  | none => rfl
  | some parts => simp

mutual

theorem target_columns_unplaced (e : Expr) :
    targetColumns imported e.unplaced = targetColumns imported e := by
  cases e with
  | tuple x es | list x es =>
    rw [Expr.unplaced, targetColumns, targetColumns, target_columns_of_all_unplaced es]
  | starred x value => rw [Expr.unplaced, targetColumns, targetColumns, target_columns_unplaced value]
  | member x value attr => rw [Expr.unplaced, targetColumns, targetColumns, alias_unplaced]
  | subscript x value index => rw [Expr.unplaced, targetColumns, targetColumns, column_of_unplaced]
  | _ => rfl

theorem target_columns_of_all_unplaced (es : List Expr) :
    targetColumnsOfAll imported (Expr.unplacedAll es) = targetColumnsOfAll imported es := by
  cases es with
  | nil => rfl
  | cons e es =>
    rw [Expr.unplacedAll, targetColumnsOfAll, targetColumnsOfAll, target_columns_unplaced e,
      target_columns_of_all_unplaced es]

end

theorem keys_unplaced (dataset : String) (keys : List Expr) :
    ((keys.map Expr.unplaced).mapM fun k : Expr =>
        k.textConstant?.map fun name => (Column.mk dataset name, k.extent)).map (·.map Prod.fst) =
      (keys.mapM fun k : Expr =>
        k.textConstant?.map fun name => (Column.mk dataset name, k.extent)).map (·.map Prod.fst) := by
  induction keys with
  | nil => rfl
  | cons k keys ih =>
    rw [List.map_cons, List.mapM_cons, List.mapM_cons, Expr.text_constant_unplaced]
    cases k.textConstant? with
    | none => rfl
    | some name =>
      have hcons : ∀ (x : Extent) (o : Option (List (Column × Extent))),
          ((o.bind fun cs => some ((Column.mk dataset name, x) :: cs)).map (·.map Prod.fst)) =
            (o.map (·.map Prod.fst)).map (Column.mk dataset name :: ·) := by
        intro x o
        cases o <;> rfl
      exact (hcons _ _).trans ((congrArg _ ih).trans (hcons _ _).symm)

theorem key_columns_unplaced (value index : Expr) :
    (keyColumns? value.unplaced index.unplaced).map (·.map Prod.fst) =
      (keyColumns? value index).map (·.map Prod.fst) := by
  cases value with
  | name x dataset role =>
    rw [Expr.unplaced, key_columns_name, key_columns_name, elements_unplaced]
    cases elements? index with
    | none => rfl
    | some keys =>
      simp only [Option.map_some, Option.bind_some, List.isEmpty_map]
      split
      · rfl
      · exact keys_unplaced dataset keys
  | _ => rfl

/-! ## Calls -/

@[simp] theorem called_name_unplaced (func : Expr) : calledName func.unplaced = calledName func := by
  cases func <;> rfl

@[simp] theorem is_function_call_unplaced (func : Expr) :
    isFunctionCall imported func.unplaced = isFunctionCall imported func := by
  cases func with
  | member x value attr => cases value <;> rfl
  | _ => rfl

theorem shift_argument_unplaced (arguments : List Expr) :
    shiftArgument? (arguments.map Expr.unplaced) =
      (shiftArgument? arguments).map Expr.unplaced := by
  unfold shiftArgument?
  rw [List.foldl_map, Expr.positional_unplaced, List.head?_map]
  refine List.foldl_hom (Option.map Expr.unplaced) fun found a => ?_
  cases a with
  | keyword x id value =>
    by_cases hid : id = some "periods"
    · subst hid
      rfl
    · rw [Expr.unplaced]
      split <;> simp_all
  | _ => rfl

theorem shift_amount_unplaced (arguments : List Expr) :
    shiftAmount (arguments.map Expr.unplaced) = shiftAmount arguments := by
  unfold shiftAmount
  rw [shift_argument_unplaced]
  cases shiftArgument? arguments with
  | none => rfl
  | some a => exact congrArg (·.bind Literal.int?) (Expr.literal_unplaced? a)

theorem inner_shift_unplaced (shift : Shift) (func : Expr) (arguments : List Expr) :
    innerShift imported shift func.unplaced (arguments.map Expr.unplaced) =
      innerShift imported shift func arguments := by
  unfold innerShift
  rw [called_name_unplaced, is_function_call_unplaced, shift_amount_unplaced]

/-! ## The scan -/

theorem unplaced_ne_name {e : Expr} (h : ∀ x id role, e ≠ .name x id role) (x : Extent) (id : String)
    (role : NameRole) : e.unplaced ≠ .name x id role := by
  cases e with
  | name y id' role' => exact absurd rfl (h y id' role')
  | _ => nofun

theorem unplaced_ne_member {e : Expr} (h : ∀ x v attr, e ≠ .member x v attr) (x : Extent) (v : Expr)
    (attr : String) : e.unplaced ≠ .member x v attr := by
  cases e with
  | member y v' attr' => exact absurd rfl (h y v' attr')
  | _ => nofun

theorem is_indexed_unplaced (value index : Expr) :
    isIndexed value.unplaced index.unplaced = isIndexed value index := by
  cases value with
  | member x container attr => cases index <;> rfl
  | _ => rfl

mutual

theorem scan_unplaced (shift : Shift) (e : Expr) :
    (scan imported shift e.unplaced).shifts = (scan imported shift e).shifts := by
  cases e with
  | name x id role =>
    rw [Expr.unplaced, scan, scan]
    split <;> rfl
  | constant x v => rfl
  | member x value attr =>
    by_cases hname : ∃ y base role, value = .name y base role
    · obtain ⟨y, base, role, rfl⟩ := hname
      rw [Expr.unplaced, Expr.unplaced, scan, scan]
      split
      · rfl
      · split <;> rfl
    · have hne : ∀ y id role, value ≠ .name y id role := fun y id role h => hname ⟨y, id, role, h⟩
      rw [Expr.unplaced, scan_member_of_ne hne, scan_member_of_ne (unplaced_ne_name hne)]
      exact scan_unplaced shift value
  | subscript x value index =>
    rw [Expr.unplaced]
    cases hc : columnOf? imported value index with
    | some c =>
      have hrows : (rowsTrace imported value.unplaced index.unplaced).shifts =
          (rowsTrace imported value index).shifts := by
        unfold rowsTrace
        rw [is_indexed_unplaced]
        split
        · cases index with
          | tuple y parts => exact scan_init_unplaced parts
          | _ => rfl
        · rfl
      rw [scan_column hc, scan_column ((column_of_unplaced value index).trans hc)]
      simp [hrows]
    | none =>
      have hc' := (@column_of_unplaced imported value index).trans hc
      have hkeys := key_columns_unplaced value index
      cases hk : keyColumns? value index with
      | some columns =>
        rw [hk] at hkeys
        obtain ⟨columns', hk', hcolumns⟩ := Option.map_eq_some_iff.mp hkeys
        have hreads : ∀ cs : List (Column × Extent),
            ({ Trace.empty with reads := cs.map fun (c, y) => ⟨c, shift, y⟩ } : Trace).shifts =
              (cs.map Prod.fst).map (·, shift) := by
          intro cs
          simp [Trace.shifts]
        rw [scan_keys hc hk, scan_keys hc' hk', shifts_append, shifts_append, hreads, hreads,
          hcolumns]
        rfl
      | none =>
        rw [hk, Option.map_none, Option.map_eq_none_iff] at hkeys
        rw [scan_parts hc hk, scan_parts hc' hkeys]
        simp [scan_unplaced shift value, scan_unplaced (some 0) index]
  | call x func arguments =>
    have hreceiver : ∀ inner, (receiverTrace imported inner func.unplaced).shifts =
        (receiverTrace imported inner func).shifts := by
      intro inner
      by_cases hmember : ∃ y v attr, func = .member y v attr
      · obtain ⟨y, v, attr, rfl⟩ := hmember
        exact scan_unplaced inner v
      · by_cases hname : ∃ y id role, func = .name y id role
        · obtain ⟨y, id, role, rfl⟩ := hname
          rfl
        · have hm : ∀ y v attr, func ≠ .member y v attr := fun y v attr h => hmember ⟨y, v, attr, h⟩
          have hn : ∀ y id role, func ≠ .name y id role := fun y id role h => hname ⟨y, id, role, h⟩
          rw [receiver_of_ne hm hn, receiver_of_ne (unplaced_ne_member hm) (unplaced_ne_name hn)]
          exact scan_unplaced inner func
    have hargs := fun s => scan_all_unplaced s arguments
    rw [Expr.unplaced, scan_call, scan_call, Expr.unplaced_all_eq, inner_shift_unplaced,
      called_name_unplaced]
    simp only [shifts_append, shifts_of_calls, hreceiver, hargs]
  | keyword x id value => exact scan_unplaced shift value
  | starred x value => exact scan_unplaced shift value
  | unary x op value => exact scan_unplaced shift value
  | binary x op l r =>
    rw [Expr.unplaced, scan, scan, shifts_append, shifts_append, scan_unplaced shift l,
      scan_unplaced shift r]
  | tuple x es | list x es | set x es | composite x form es =>
    rw [Expr.unplaced, scan, scan, Expr.unplaced_all_eq, scan_all_unplaced shift es]
  | dict x ks vs =>
    rw [Expr.unplaced, scan, scan, Expr.unplaced_all_eq, Expr.unplaced_all_eq, shifts_append,
      shifts_append, scan_all_unplaced shift ks, scan_all_unplaced shift vs]

theorem scan_all_unplaced (shift : Shift) (es : List Expr) :
    (scanAll imported shift (es.map Expr.unplaced)).shifts = (scanAll imported shift es).shifts := by
  cases es with
  | nil => rfl
  | cons e es =>
    rw [List.map_cons, scanAll, scanAll, shifts_append, shifts_append, scan_unplaced shift e,
      scan_all_unplaced shift es]

theorem scan_init_unplaced (es : List Expr) :
    (scanInit imported (Expr.unplacedAll es)).shifts = (scanInit imported es).shifts := by
  match es with
  | [] => rfl
  | [e] => rfl
  | e :: f :: es =>
    rw [Expr.unplacedAll, Expr.unplacedAll, scanInit, scanInit, shifts_append, shifts_append,
      scan_unplaced (some 0) e, ← Expr.unplacedAll, scan_init_unplaced (f :: es)]

end

end BacktestAudit.Flow
