import BacktestAudit.Proofs.Flow.Scan
import BacktestAudit.Proofs.Syntax.Calls

/-!
The calls that a scan records: every call of an expression once, what it is called on and with before
the call itself.
-/
namespace BacktestAudit.Flow
open BacktestAudit.Syntax BacktestAudit.Source
set_option autoImplicit false

variable {imported : List String}

/-! ## Expressions without calls -/

theorem calls_of_alias {e : Expr} {dataset : String} (h : alias? e = some dataset) :
    e.calls = [] := by
  cases e with
  | name x id role => rw [Expr.calls]
  | member x value attr =>
    obtain ⟨inner, hinner, _⟩ := Option.map_eq_some_iff.mp h
    rw [Expr.calls]
    exact calls_of_alias hinner
  | _ => cases h

theorem calls_of_text {e : Expr} {text : String} (h : e.textConstant? = some text) :
    e.calls = [] := by
  cases e with
  | constant x value => rw [Expr.calls]
  | _ => cases h

theorem calls_of_init {es : List Expr} {key : Expr} (h : es.getLast? = some key)
    (hkey : key.calls = []) : Expr.callsOfAll es = es.dropLast.flatMap Expr.calls := by
  obtain ⟨init, rfl⟩ := List.getLast?_eq_some_iff.mp h
  rw [Expr.calls_of_all_eq, List.dropLast_concat, List.flatMap_append, List.flatMap_singleton,
    hkey, List.append_nil]

/-! ## What a scan records -/

/-- A call is recorded with its place, what it calls and its arguments. -/
inductive Records (imported : List String) : CallSite → Expr → Prop
  | intro (x : Extent) (func : Expr) (arguments : List Expr) (receiverReads argReads : List Column)
      (assignment : Option Nat) :
      Records imported
        { callSite imported x func arguments receiverReads argReads with assignment }
        (.call x func arguments)

/-- The calls of expressions are recorded, one after the other. -/
def RecordsAll (imported : List String) (sites : List CallSite) (calls : List Expr) : Prop :=
  List.Forall₂ (Records imported) sites calls

theorem Records.extent {site : CallSite} {c : Expr} (h : Records imported site c) :
    site.extent = c.extent := by
  cases h
  rfl

theorem RecordsAll.spans {sites : List CallSite} {calls : List Expr}
    (h : RecordsAll imported sites calls) :
    sites.map (·.extent.span) = calls.map (·.extent.span) := by
  induction h with
  | nil => rfl
  | cons hrecords _ ih => rw [List.map_cons, List.map_cons, hrecords.extent, ih]

/-- A call with a span of its own has one record with that span. -/
theorem RecordsAll.site {sites : List CallSite} {calls : List Expr} {c : Expr}
    (h : RecordsAll imported sites calls) (hnodup : (calls.map (·.extent.span)).Nodup)
    (hc : c ∈ calls) :
    ∃ site, sites.filter (·.extent.span = c.extent.span) = [site] ∧ Records imported site c := by
  induction h with
  | nil => cases hc
  | @cons site d sites calls hrecords hall ih =>
    obtain ⟨hfirst, hnodup⟩ := List.nodup_cons.mp hnodup
    change d.extent.span ∉ calls.map (·.extent.span) at hfirst
    rw [List.filter_cons, hrecords.extent]
    rcases List.mem_cons.mp hc with rfl | hc
    · have hrest : sites.filter (·.extent.span = c.extent.span) = [] := by
        refine List.filter_eq_nil_iff.mpr fun other hother hsame => hfirst ?_
        rw [← RecordsAll.spans hall, ← of_decide_eq_true hsame]
        exact List.mem_map.mpr ⟨other, hother, rfl⟩
      refine ⟨site, ?_, hrecords⟩
      rw [if_pos (decide_eq_true rfl), hrest]
    · have hother : d.extent.span ≠ c.extent.span :=
        fun heq => hfirst (heq ▸ List.mem_map.mpr ⟨c, hc, rfl⟩)
      rw [if_neg (by simpa using hother)]
      exact ih hnodup hc

theorem RecordsAll.append {sites sites' : List CallSite} {calls calls' : List Expr}
    (h : RecordsAll imported sites calls) (h' : RecordsAll imported sites' calls') :
    RecordsAll imported (sites ++ sites') (calls ++ calls') :=
  List.rel_append h h'

/-- A subscript that denotes a column has its calls in the row selectors. -/
theorem rows_record {value index : Expr} {c : Column} (h : columnOf? imported value index = some c)
    (hrows : ∀ x parts, index = .tuple x parts →
      RecordsAll imported (scanInit imported parts).calls (parts.dropLast.flatMap Expr.calls)) :
    RecordsAll imported (rowsTrace imported value index).calls (value.calls ++ index.calls) := by
  obtain ⟨container, key, hparts, hname, halias, _⟩ := column_of_eq_some.mp h
  have hkey := calls_of_text hname
  have hcontainer := calls_of_alias halias
  unfold columnParts? at hparts
  split at hparts
  · next x inner attr =>
    split at hparts
    · next hattr =>
      obtain ⟨last, hlast, heq⟩ := Option.map_eq_some_iff.mp hparts
      obtain ⟨rfl, rfl⟩ := Prod.mk.inj heq
      cases index with
      | tuple y parts =>
        rw [Expr.calls, hcontainer, Expr.calls, calls_of_init hlast hkey]
        simpa [rowsTrace, isIndexed, hattr] using hrows y parts rfl
      | _ => cases hlast
    · next hattr =>
      obtain ⟨rfl, rfl⟩ := Prod.mk.inj (Option.some.inj hparts)
      rw [hcontainer, hkey]
      cases index with
      | constant y text => exact .nil
      | _ => cases hname
  · obtain ⟨rfl, rfl⟩ := Prod.mk.inj (Option.some.inj hparts)
    rw [hcontainer, hkey]
    cases index with
    | constant y text =>
      rw [rows_trace_of_constant]
      exact .nil
    | _ => cases hname

theorem calls_of_keys {value index : Expr} {columns : List (Column × Extent)}
    (h : keyColumns? value index = some columns) : value.calls ++ index.calls = [] := by
  obtain ⟨x, dataset, role, keys, rfl, helements, _, hnames⟩ := key_columns_eq_some h
  have hnone : List.Forall₂ (fun k c => k.calls = [] ∧ Names dataset k c) keys columns :=
    hnames.imp fun k c hname => ⟨calls_of_text hname.choose_spec.1, hname⟩
  have hkeys : Expr.callsOfAll keys = [] := by
    rw [Expr.calls_of_all_eq, List.flatMap_eq_nil_iff]
    exact ((List.forall₂_and_left keys columns).mp hnone).1
  cases index with
  | tuple y es | list y es =>
    obtain rfl := Option.some.inj helements
    rw [Expr.calls, Expr.calls, hkeys, List.append_nil]
  | _ => cases helements

mutual

/-- A scan records the calls of an expression, each once. -/
theorem scan_records (shift : Shift) (e : Expr) :
    RecordsAll imported (scan imported shift e).calls e.calls := by
  cases e with
  | name x id role =>
    rw [scan, Expr.calls]
    split <;> exact .nil
  | constant x v => exact .nil
  | member x value attr =>
    by_cases hname : ∃ at_ base role, value = .name at_ base role
    · obtain ⟨at_, base, role, rfl⟩ := hname
      rw [scan, Expr.calls, Expr.calls]
      split
      · exact .nil
      · split <;> exact .nil
    · rw [scan_member_of_ne fun at_ id role h => hname ⟨at_, id, role, h⟩]
      exact scan_records shift value
  -- A subscript that denotes columns is not scanned part by part; its keys are constants, without
  -- calls, and only the rows of an indexer are expressions of their own.
  | subscript x value index =>
    rw [Expr.calls]
    cases hc : columnOf? imported value index with
    | some c =>
      rw [scan_column hc]
      refine rows_record hc fun y parts hindex => ?_
      subst hindex
      exact scan_init_records parts
    | none =>
      cases hk : keyColumns? value index with
      | some columns =>
        rw [calls_of_keys hk, scan_keys hc hk]
        exact .nil
      | none =>
        rw [scan_parts hc hk]
        exact (scan_records shift value).append (scan_records (some 0) index)
  | call x func arguments =>
    rw [scan_call, Expr.calls]
    refine .append (.append ?_ (scan_all_records _ arguments)) (.cons (.intro ..) .nil)
    by_cases hmember : ∃ at_ v attr, func = .member at_ v attr
    · obtain ⟨at_, v, attr, rfl⟩ := hmember
      rw [Expr.calls]
      exact scan_records _ v
    · by_cases hname : ∃ at_ id role, func = .name at_ id role
      · obtain ⟨at_, id, role, rfl⟩ := hname
        exact .nil
      · rw [receiver_of_ne (fun at_ v attr h => hmember ⟨at_, v, attr, h⟩)
          fun at_ id role h => hname ⟨at_, id, role, h⟩]
        exact scan_records _ func
  | keyword x name value | starred x value | unary x op value =>
    rw [scan, Expr.calls]
    exact scan_records shift value
  | binary x op l r => exact (scan_records shift l).append (scan_records shift r)
  | tuple x es | list x es | set x es | composite x form es =>
    rw [scan, Expr.calls]
    exact scan_all_records shift es
  | dict x ks vs => exact (scan_all_records shift ks).append (scan_all_records shift vs)

theorem scan_all_records (shift : Shift) (es : List Expr) :
    RecordsAll imported (scanAll imported shift es).calls (Expr.callsOfAll es) := by
  cases es with
  | nil => exact .nil
  | cons e es => exact (scan_records shift e).append (scan_all_records shift es)

theorem scan_init_records (es : List Expr) :
    RecordsAll imported (scanInit imported es).calls (es.dropLast.flatMap Expr.calls) := by
  cases es with
  | nil => exact .nil
  | cons e es =>
    cases es with
    | nil => exact .nil
    | cons f es => exact (scan_records (some 0) e).append (scan_init_records (f :: es))

end

end BacktestAudit.Flow
