import BacktestAudit.Flow.Graph
import Mathlib.Data.List.Forall2

/-!
What a scan takes from an expression, by the shapes that the expression may have. A subscript denotes
a column, a list of columns, or what its parts do; a call hands its shift on to its receiver.
-/
namespace BacktestAudit.Flow
open BacktestAudit.Syntax BacktestAudit.Source
set_option autoImplicit false

variable {imported : List String}

/-! ## Columns of subscripts -/

theorem column_of_eq_some {value index : Expr} {c : Column} :
    columnOf? imported value index = some c ↔
      ∃ container key, columnParts? value index = some (container, key) ∧
        key.textConstant? = some c.name ∧ alias? container = some c.dataset ∧
        leadingName c.dataset ∉ imported := by
  simp only [columnOf?, Option.bind_eq_bind, Option.bind_eq_some_iff, Prod.exists]
  constructor
  · rintro ⟨container, key, hparts, name, hname, dataset, hdataset, hc⟩
    split at hc
    · cases hc
    · obtain rfl := Option.some.inj hc
      exact ⟨container, key, hparts, hname, hdataset, ‹_›⟩
  · rintro ⟨container, key, hparts, hname, hdataset, himp⟩
    exact ⟨container, key, hparts, c.name, hname, c.dataset, hdataset, if_neg himp⟩

theorem column_parts_of_ne {value : Expr} (h : ∀ e v attr, value ≠ .member e v attr) (index : Expr) :
    columnParts? value index = some (value, index) := by
  unfold columnParts?
  split
  · exact absurd rfl (h _ _ _)
  · rfl

/-- The keys of a subscript of a variable. -/
theorem key_columns_name (at_ : Extent) (dataset : String) (role : NameRole) (index : Expr) :
    keyColumns? (.name at_ dataset role) index = (elements? index).bind fun keys =>
      if keys.isEmpty then none
      else keys.mapM fun k => k.textConstant?.map fun name => (⟨dataset, name⟩, k.extent) := by
  cases index <;> rfl

theorem key_columns_of_ne_name {value : Expr} (h : ∀ at_ id role, value ≠ .name at_ id role)
    (index : Expr) : keyColumns? value index = none := by
  unfold keyColumns?
  split
  · exact absurd rfl (h _ _ _)
  · exact absurd rfl (h _ _ _)
  · rfl

/-- A key and the column of a dataset that it names, with its place. -/
def Names (dataset : String) (k : Expr) (c : Column × Extent) : Prop :=
  ∃ name, k.textConstant? = some name ∧ c = (⟨dataset, name⟩, k.extent)

theorem texts_name {dataset : String} {keys : List Expr} {columns : List (Column × Extent)}
    (h : (keys.mapM fun k => k.textConstant?.map fun name => (Column.mk dataset name, k.extent)) =
      some columns) : List.Forall₂ (Names dataset) keys columns := by
  induction keys generalizing columns with
  | nil =>
    obtain rfl := Option.some.inj h
    exact .nil
  | cons k keys ih =>
    rw [List.mapM_cons, Option.bind_eq_bind, Option.bind_eq_some_iff] at h
    obtain ⟨column, hcolumn, hrest⟩ := h
    obtain ⟨name, hname, rfl⟩ := Option.map_eq_some_iff.mp hcolumn
    obtain ⟨others, hothers, heq⟩ := Option.bind_eq_some_iff.mp hrest
    obtain rfl := Option.some.inj heq
    exact .cons ⟨name, hname, rfl⟩ (ih hothers)

/-- The keys that a variable is subscripted by name columns of it, one each. -/
theorem key_columns_eq_some {value index : Expr} {columns : List (Column × Extent)}
    (h : keyColumns? value index = some columns) :
    ∃ at_ dataset role keys, value = .name at_ dataset role ∧ elements? index = some keys ∧
      keys ≠ [] ∧ List.Forall₂ (Names dataset) keys columns := by
  cases value with
  | name at_ dataset role =>
    rw [key_columns_name] at h
    obtain ⟨keys, helements, hmap⟩ := Option.bind_eq_some_iff.mp h
    split at hmap
    · nomatch hmap
    · next hkeys =>
      exact ⟨at_, dataset, role, keys, rfl, helements, fun hnil => hkeys (by rw [hnil]; rfl),
        texts_name hmap⟩
  | _ => nomatch h

/-! ## Members -/

theorem scan_member_of_ne {value : Expr} (h : ∀ at_ id role, value ≠ .name at_ id role)
    (shift : Shift) (e : Extent) (attr : String) :
    scan imported shift (.member e value attr) = scan imported shift value := by
  cases value with
  | name at_ id role => exact absurd rfl (h at_ id role)
  | _ => rfl

/-! ## Subscripts -/

/-- The row selectors of a subscript that denotes a column. -/
def rowsTrace (imported : List String) (value index : Expr) : Trace :=
  if isIndexed value index then
    match index with
    | .tuple _ parts => scanInit imported parts
    | _ => .empty
  else .empty

theorem rows_trace_of_constant (value : Expr) (x : Extent) (v : Literal) :
    rowsTrace imported value (.constant x v) = .empty := by
  unfold rowsTrace
  split <;> rfl

theorem scan_column {value index : Expr} {c : Column} (h : columnOf? imported value index = some c)
    (shift : Shift) (e : Extent) :
    scan imported shift (.subscript e value index) =
      forwardTrace e index ++ (.read c shift e ++ rowsTrace imported value index) := by
  unfold scan
  rw [h]
  rfl

/-- A subscript by a list of keys reads a column for each of them. -/
theorem scan_keys {value index : Expr} {columns : List (Column × Extent)}
    (hc : columnOf? imported value index = none) (hk : keyColumns? value index = some columns)
    (shift : Shift) (e : Extent) :
    scan imported shift (.subscript e value index) = forwardTrace e index ++
      { Trace.empty with reads := columns.map fun (c, at_) => ⟨c, shift, at_⟩ } := by
  unfold scan
  rw [hc, hk]

/-- A subscript that denotes no column reads what is read in its parts. -/
theorem scan_parts {value index : Expr} (hc : columnOf? imported value index = none)
    (hk : keyColumns? value index = none) (shift : Shift) (e : Extent) :
    scan imported shift (.subscript e value index) =
      forwardTrace e index ++ (scan imported shift value ++ scan imported (some 0) index) := by
  conv =>
    lhs
    unfold scan
  rw [hc, hk]

theorem scan_init_cons {e : Expr} {es : List Expr} (h : es ≠ []) :
    scanInit imported (e :: es) = scan imported (some 0) e ++ scanInit imported es := by
  cases es with
  | nil => exact absurd rfl h
  | cons f es => rw [scanInit]

theorem scan_init_concat (es : List Expr) (e : Expr) :
    scanInit imported (es ++ [e]) = scanAll imported (some 0) es := by
  induction es with
  | nil => rfl
  | cons f es ih =>
    have hne : es ++ [e] ≠ [] := List.append_ne_nil_of_right_ne_nil es (List.cons_ne_nil e [])
    rw [List.cons_append, scan_init_cons hne, ih, scanAll]

/-! ## Calls -/

/-- The receiver of a call, scanned under the shift that the call leaves to it. -/
def receiverTrace (imported : List String) (shift : Shift) : Expr → Trace
  | .member _ value _ => scan imported shift value
  | .name .. => .empty
  | f => scan imported shift f

/-- The shift that a call leaves to its receiver. -/
def innerShift (imported : List String) (shift : Shift) (func : Expr) (arguments : List Expr) :
    Shift :=
  if calledName func == "shift" && !isFunctionCall imported func then
    addShift shift (shiftAmount arguments)
  else shift

theorem scan_call (shift : Shift) (e : Extent) (func : Expr) (arguments : List Expr) :
    scan imported shift (.call e func arguments) =
      let receiver := receiverTrace imported (innerShift imported shift func arguments) func
      let args := scanAll imported (if calledName func == "shift" then some 0 else shift) arguments
      receiver ++ args ++
        { Trace.empty with
          calls := [callSite imported e func arguments receiver.columns args.columns]
          leavesRange := arguments.any argumentLeavesRange } := by
  cases func <;> rfl

theorem receiver_of_ne {f : Expr} (hmember : ∀ at_ v attr, f ≠ .member at_ v attr)
    (hname : ∀ at_ id role, f ≠ .name at_ id role) (shift : Shift) :
    receiverTrace imported shift f = scan imported shift f := by
  unfold receiverTrace
  split
  · exact absurd rfl (hmember _ _ _)
  · exact absurd rfl (hname _ _ _)
  · rfl

end BacktestAudit.Flow
