import BacktestAudit.Proofs.Flow.Followed
import BacktestAudit.Proofs.Flow.Related

/-!
What a scan records, and which expressions it stems from. A read is of one of five forms of
expression, which names what the column is of; the columns that a call has as its receiver and its
arguments are read inside it; and what looks ahead is a subscript.
-/
namespace BacktestAudit.Flow
open BacktestAudit.Syntax BacktestAudit.Source
set_option autoImplicit false

variable {imported : List String}

/-! ## Expressions inside others -/

theorem singleton_subset {e : Expr} {es : List Expr} (h : e ∈ es) : [e] ⊆ es :=
  List.cons_subset.mpr ⟨h, List.nil_subset es⟩

/-- Whether each of several expressions stands in one of some others. -/
def StandAmong (es fs : List Expr) : Prop := ∀ e ∈ es, ∃ f ∈ fs, e.Occurs f

theorem StandAmong.of_subset {es fs : List Expr} (h : es ⊆ fs) : StandAmong es fs :=
  fun e he => ⟨e, h he, .here⟩

theorem StandAmong.of_children {es : List Expr} {e : Expr} (h : es ⊆ e.children) :
    StandAmong es [e] :=
  fun _ hc => ⟨e, List.mem_singleton_self e, .inside (h hc) .here⟩

/-- Whether something holds of an expression that stands in one of several. -/
def Somewhere (es : List Expr) (P : Expr → Prop) : Prop := ∃ e ∈ es, ∃ d : Expr, d.Occurs e ∧ P d

namespace Somewhere

variable {es fs : List Expr} {P Q : Expr → Prop}

theorem self {e : Expr} (he : e ∈ es) (h : P e) : Somewhere es P := ⟨e, he, e, .here, h⟩

theorem widen (h : Somewhere es P) (hamong : StandAmong es fs) : Somewhere fs P := by
  obtain ⟨e, he, d, hd, hP⟩ := h
  obtain ⟨f, hf, hoccurs⟩ := hamong e he
  exact ⟨f, hf, d, hd.trans hoccurs, hP⟩

theorem imp (h : Somewhere es P) (himp : ∀ d, P d → Q d) : Somewhere es Q := by
  obtain ⟨e, he, d, hd, hP⟩ := h
  exact ⟨e, he, d, hd, himp d hP⟩

end Somewhere

/-- Whether a place is one of an expression that stands in one of several. -/
def StandsIn (es : List Expr) (x : Extent) : Prop :=
  ∃ e ∈ es, ∃ d : Expr, d.Occurs e ∧ x = d.extent

namespace StandsIn

variable {es fs : List Expr} {x : Extent}

theorem self {e : Expr} (he : e ∈ es) : StandsIn es e.extent := ⟨e, he, e, .here, rfl⟩

theorem widen (h : StandsIn es x) (hamong : StandAmong es fs) : StandsIn fs x :=
  Somewhere.widen (P := fun d => x = d.extent) h hamong

theorem mono (h : StandsIn es x) (hsub : es ⊆ fs) : StandsIn fs x := h.widen (.of_subset hsub)

theorem enclose {e : Expr} (h : StandsIn es x) (hsub : es ⊆ e.children) : StandsIn [e] x :=
  h.widen (.of_children hsub)

end StandsIn

/-! ## Forms of reads -/

theorem elements_eq_children {e : Expr} {es : List Expr} (h : elements? e = some es) :
    es = e.children := by
  cases e with
  | tuple x ds | list x ds => exact (Option.some.inj h).symm
  | _ => nomatch h

theorem key_columns_at {value index : Expr} {columns : List (Column × Extent)}
    (h : keyColumns? value index = some columns) :
    columns.map (·.2) = index.children.map (·.extent) := by
  obtain ⟨_, dataset, _, keys, _, helements, _, hnames⟩ := key_columns_eq_some h
  rw [← elements_eq_children helements]
  exact map_eq_of_forall₂ hnames fun k c hname => congrArg Prod.snd hname.choose_spec.2

theorem key_columns_stand {value index : Expr} {columns : List (Column × Extent)}
    (h : keyColumns? value index = some columns) : ∀ c ∈ columns, StandsIn index.children c.2 := by
  intro c hc
  have hplace := List.mem_map_of_mem (f := (·.2)) hc
  rw [key_columns_at h] at hplace
  obtain ⟨k, hk, hextent⟩ := List.mem_map.mp hplace
  exact hextent ▸ .self hk

/-- The forms of expressions that are read as a column, each with the place of the read. -/
inductive ReadAs (imported : List String) : Expr → Column → Extent → Prop
  | bare {x : Extent} {id : String} : id ∉ imported →
      ReadAs imported (.name x id .read) (.ofVariable id) x
  | frame {x y : Extent} {base attr : String} {role : NameRole} : base ∉ imported →
      ReadAs imported (.member x (.name y base role) attr) (.ofVariable base) y
  | member {x y : Extent} {base attr : String} {role : NameRole} : base ∉ imported →
      ReadAs imported (.member x (.name y base role) attr) ⟨base, attr⟩ x
  | column {x : Extent} {value index : Expr} {c : Column} :
      columnOf? imported value index = some c → ReadAs imported (.subscript x value index) c x
  | key {x y : Extent} {value index : Expr} {columns : List (Column × Extent)} {c : Column} :
      keyColumns? value index = some columns → (c, y) ∈ columns →
      ReadAs imported (.subscript x value index) c y

/-! ## What is recorded -/

/-- All that is recorded stems from some expressions, and has the same link to an assignment. -/
structure Trace.Stems (imported : List String) (link : Option Nat) (t : Trace) (es : List Expr) :
    Prop where
  reads : ∀ o ∈ t.reads, Somewhere es fun d => ReadAs imported d o.column o.extent
  calls : ∀ site ∈ t.calls, site.assignment = link ∧ StandsIn es site.extent ∧
    ∀ c ∈ site.receiverReads ++ site.argReads, Somewhere es fun d => ∃ x, ReadAs imported d c x
  forward : ∀ f ∈ t.forward, f.assignment = link ∧ StandsIn es f.extent

namespace Trace.Stems

variable {link : Option Nat} {t t' : Trace} {es fs : List Expr}

theorem empty : Trace.Stems imported link .empty es := ⟨nofun, nofun, nofun⟩

theorem read {column : Column} {shift : Shift} {x : Extent}
    (h : Somewhere es fun d => ReadAs imported d column x) :
    Trace.Stems imported link (.read column shift x) es :=
  ⟨List.forall_mem_singleton.mpr h, nofun, nofun⟩

theorem append (h : t.Stems imported link es) (h' : t'.Stems imported link es) :
    (t ++ t').Stems imported link es :=
  ⟨List.forall_mem_append.mpr ⟨h.reads, h'.reads⟩, List.forall_mem_append.mpr ⟨h.calls, h'.calls⟩,
    List.forall_mem_append.mpr ⟨h.forward, h'.forward⟩⟩

theorem widen (h : t.Stems imported link es) (hamong : StandAmong es fs) :
    t.Stems imported link fs where
  reads o ho := (h.reads o ho).widen hamong
  calls site hsite := by
    obtain ⟨hlink, hstands, hhanded⟩ := h.calls site hsite
    exact ⟨hlink, hstands.widen hamong, fun c hc => (hhanded c hc).widen hamong⟩
  forward f hf := (h.forward f hf).imp_right (·.widen hamong)

theorem mono (h : t.Stems imported link es) (hsub : es ⊆ fs) : t.Stems imported link fs :=
  h.widen (.of_subset hsub)

theorem enclose {e : Expr} (h : t.Stems imported link es) (hsub : es ⊆ e.children) :
    t.Stems imported link [e] :=
  h.widen (.of_children hsub)

theorem child {c e : Expr} (h : t.Stems imported link [c]) (hc : c ∈ e.children) :
    t.Stems imported link [e] :=
  h.enclose (singleton_subset hc)

theorem columns (h : t.Stems imported link es) {c : Column} (hc : c ∈ t.columns) :
    Somewhere es fun d => ∃ x, ReadAs imported d c x := by
  obtain ⟨o, ho, rfl⟩ := List.mem_map.mp hc
  exact (h.reads o ho).imp fun d hd => ⟨o.extent, hd⟩

theorem within (h : t.Stems imported link es) (index : Nat) :
    (t.within index).Stems imported (some index) es where
  reads := h.reads
  calls site hsite := by
    obtain ⟨old, hold, rfl⟩ := List.mem_map.mp hsite
    exact ⟨rfl, (h.calls old hold).2⟩
  forward f hf := by
    obtain ⟨old, hold, rfl⟩ := List.mem_map.mp hf
    exact ⟨rfl, (h.forward old hold).2⟩

end Trace.Stems

theorem forward_trace_stems (x : Extent) (value index : Expr) :
    (forwardTrace x index).Stems imported none [.subscript x value index] where
  reads := nofun
  calls := nofun
  forward f hf := by
    obtain ⟨step, _, rfl⟩ := List.mem_map.mp hf
    exact ⟨rfl, .self (e := .subscript x value index) (List.mem_singleton_self _)⟩

/-- A call is recorded where it stands, with what is read in its parts. -/
theorem call_stems {receiver args : Trace} {x : Extent} {func : Expr} {arguments : List Expr}
    (hreceiver : receiver.Stems imported none [.call x func arguments])
    (hargs : args.Stems imported none [.call x func arguments]) :
    (receiver ++ args ++
      { Trace.empty with
        calls := [callSite imported x func arguments receiver.columns args.columns]
        leavesRange := arguments.any argumentLeavesRange }).Stems imported none
      [.call x func arguments] := by
  refine (hreceiver.append hargs).append ⟨nofun, List.forall_mem_singleton.mpr ?_, nofun⟩
  refine ⟨rfl, .self (e := .call x func arguments) (List.mem_singleton_self _), fun c hc => ?_⟩
  rcases List.mem_append.mp hc with hc | hc
  · exact hreceiver.columns hc
  · exact hargs.columns hc

theorem receiver_stems {s : Shift} {func : Expr}
    (h : (scan imported s func).Stems imported none [func]) :
    (receiverTrace imported s func).Stems imported none [func] := by
  cases func with
  | name x id role => exact .empty
  | member x value attr =>
    by_cases hname : ∃ y base role, value = .name y base role
    · obtain ⟨y, base, role, rfl⟩ := hname
      rw [receiverTrace, scan]
      split
      · next hread =>
        obtain ⟨rfl, hbase⟩ := hread
        have hself := List.mem_singleton_self (Expr.name y base .read)
        exact .read (Somewhere.widen (.self hself (.bare hbase)) (.of_children (List.Subset.refl _)))
      · exact .empty
    · rwa [scan_member_of_ne fun y id role h => hname ⟨y, id, role, h⟩] at h
  | _ => exact h

mutual

/-- All that a scan records stems from the expression. -/
theorem scan_stems (shift : Shift) (e : Expr) :
    (scan imported shift e).Stems imported none [e] := by
  cases e with
  | name x id role =>
    rw [scan]
    split
    · next h =>
      obtain ⟨rfl, hid⟩ := h
      exact .read (.self (List.mem_singleton_self _) (.bare hid))
    · exact .empty
  | constant x v => exact .empty
  | member x value attr =>
    by_cases hname : ∃ y base role, value = .name y base role
    · obtain ⟨y, base, role, rfl⟩ := hname
      rw [scan]
      split
      · exact .empty
      · next hbase =>
        split
        · exact .read (.self (List.mem_singleton_self _) (.frame hbase))
        · exact .read (.self (List.mem_singleton_self _) (.member hbase))
    · rw [scan_member_of_ne fun y id role h => hname ⟨y, id, role, h⟩]
      exact (scan_stems shift value).child (List.mem_singleton_self _)
  -- A subscript of columns is read as a whole or at its keys, besides the rows of an indexer.
  | subscript x value index =>
    have hvalue : value ∈ (Expr.subscript x value index).children := List.mem_cons_self ..
    have hindex : index ∈ (Expr.subscript x value index).children :=
      List.mem_cons_of_mem value (List.mem_singleton_self index)
    have hself := List.mem_singleton_self (Expr.subscript x value index)
    cases hc : columnOf? imported value index with
    | some c =>
      rw [scan_column hc]
      refine (forward_trace_stems x value index).append (.append (.read (.self hself (.column hc))) ?_)
      unfold rowsTrace
      split
      · cases index with
        | tuple y parts => exact ((scan_init_stems parts).enclose (List.Subset.refl _)).child hindex
        | _ => exact .empty
      · exact .empty
    | none =>
      cases hk : keyColumns? value index with
      | some columns =>
        rw [scan_keys hc hk]
        refine (forward_trace_stems x value index).append ⟨fun o ho => ?_, nofun, nofun⟩
        obtain ⟨⟨c, y⟩, hmem, rfl⟩ := List.mem_map.mp ho
        exact .self hself (.key hk hmem)
      | none =>
        rw [scan_parts hc hk]
        exact (forward_trace_stems x value index).append
          (((scan_stems shift value).child hvalue).append
            ((scan_stems (some 0) index).child hindex))
  | call x func arguments =>
    have hreceiver := fun s => receiver_stems (scan_stems s func)
    rw [scan_call]
    exact call_stems ((hreceiver _).child (List.mem_cons_self ..))
      ((scan_all_stems _ arguments).enclose (List.subset_cons_self ..))
  | keyword x name value | starred x value | unary x op value =>
    rw [scan]
    exact (scan_stems shift value).child (List.mem_singleton_self _)
  | binary x op l r =>
    rw [scan]
    exact ((scan_stems shift l).child (List.mem_cons_self ..)).append
      ((scan_stems shift r).child (List.mem_cons_of_mem l (List.mem_singleton_self r)))
  | tuple x es | list x es | set x es | composite x form es =>
    rw [scan]
    exact (scan_all_stems shift es).enclose (List.Subset.refl _)
  | dict x ks vs =>
    rw [scan]
    exact ((scan_all_stems shift ks).enclose (List.subset_append_left ..)).append
      ((scan_all_stems shift vs).enclose (List.subset_append_right ..))

theorem scan_all_stems (shift : Shift) (es : List Expr) :
    (scanAll imported shift es).Stems imported none es := by
  cases es with
  | nil => exact .empty
  | cons e es =>
    rw [scanAll]
    exact ((scan_stems shift e).mono (singleton_subset (List.mem_cons_self ..))).append
      ((scan_all_stems shift es).mono (List.subset_cons_self ..))

theorem scan_init_stems (es : List Expr) : (scanInit imported es).Stems imported none es := by
  cases es with
  | nil => exact .empty
  | cons e es =>
    cases es with
    | nil => exact .empty
    | cons f es =>
      rw [scanInit]
      exact ((scan_stems (some 0) e).mono (singleton_subset (List.mem_cons_self ..))).append
        ((scan_init_stems (f :: es)).mono (List.subset_cons_self ..))

end

/-! ## What is taken over -/

theorem part_occurs {target value : Expr} {part : Part × Expr} (h : part ∈ partsOf value target) :
    part.2 = value ∨ part.2 ∈ value.children := by
  unfold partsOf at h
  split at h
  · next ts vs _ hvs =>
    split at h
    · obtain ⟨i, hi, rfl⟩ := List.mem_mapIdx.mp h
      exact .inr (elements_eq_children hvs ▸ List.getElem_mem hi)
    · exact .inl (by rw [List.mem_singleton.mp h])
  · exact .inl (by rw [List.mem_singleton.mp h])

theorem part_stands {target value : Expr} {part : Part × Expr} (h : part ∈ partsOf value target) :
    part.2.Occurs value := by
  rcases part_occurs h with heq | hchild
  · exact heq ▸ .here
  · exact .inside hchild .here

theorem parts_stand {targets : List Expr} {value : Expr} :
    StandAmong ((usedParts (pairTargets targets value)).map (·.2)) [value] := by
  intro e he
  obtain ⟨part, hpart, rfl⟩ := List.mem_map.mp he
  rw [used_parts_eq] at hpart
  obtain ⟨t, _, hpart⟩ := List.mem_flatMap.mp (add_subset [] _ hpart)
  exact ⟨value, List.mem_singleton_self value, part_stands hpart⟩

theorem followed_stand (s : Stmt) : StandAmong (followed s) (values s) := by
  cases s with
  | assign x targets value => exact parts_stand
  | annotate x target typeHint value =>
    cases value with
    | none => exact nofun
    | some value => exact parts_stand
  | augment x target value | evaluate x value => exact .of_subset (List.Subset.refl _)
  | imports | define | compound => exact nofun

/-- All that a step takes over stems from what it is evaluated from, with a link to the assignment
that comes next or with none. -/
theorem taken_stems (index : Nat) (s : Stmt) :
    ∃ link, (∀ i, link = some i → i = index) ∧
      (taken imported index s).Stems imported link (values s) := by
  have hall : (scanAll imported (some 0) (followed s)).Stems imported none (values s) :=
    (scan_all_stems (some 0) (followed s)).widen (followed_stand s)
  unfold taken
  split
  · exact ⟨none, nofun, hall⟩
  · exact ⟨some index, fun i hi => (Option.some.inj hi).symm, hall.within index⟩

end BacktestAudit.Flow
