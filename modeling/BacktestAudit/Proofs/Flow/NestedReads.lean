import BacktestAudit.Proofs.Flow.ReadPlaces
import Mathlib.Data.List.Pairwise

/-!
How the reads of one assignment lie to one another. Two of them are apart or at one place, unless the
one is a column that is chosen by an indexer and the other stands among the rows that are chosen with
it. Nothing else in a scan is read at an expression with parts that are read as well.
-/
namespace BacktestAudit.Flow
open BacktestAudit.Syntax BacktestAudit.Source
set_option autoImplicit false

variable {imported : List String}

/-! ## Places beside one another -/

def ApartAt (x y : Extent) : Prop := x.stop ≤ y.start ∨ y.stop ≤ x.start

theorem ApartAt.symm {x y : Extent} (h : ApartAt x y) : ApartAt y x := Or.symm h

/-- Whether the second place is among the rows of a column at the first one, which some expressions
choose by an indexer. -/
def AmongRows (es : List Expr) (x y : Extent) : Prop :=
  ∃ (value : Expr) (at_ : Extent) (parts : List Expr),
    (∃ e ∈ es, (Expr.subscript x value (.tuple at_ parts)).Occurs e) ∧
      isIndexed value (.tuple at_ parts) = true ∧ StandsIn parts.dropLast y

theorem AmongRows.mono {es fs : List Expr} {x y : Extent} (h : AmongRows es x y) (hsub : es ⊆ fs) :
    AmongRows fs x y := by
  obtain ⟨value, at_, parts, ⟨e, he, hoccurs⟩, hrows⟩ := h
  exact ⟨value, at_, parts, ⟨e, hsub he, hoccurs⟩, hrows⟩

theorem AmongRows.enclose {es : List Expr} {e : Expr} {x y : Extent} (h : AmongRows es x y)
    (hsub : es ⊆ e.children) : AmongRows [e] x y := by
  obtain ⟨value, at_, parts, ⟨c, hc, hoccurs⟩, hrows⟩ := h
  exact ⟨value, at_, parts, ⟨e, List.mem_singleton_self e, .inside (hsub hc) hoccurs⟩, hrows⟩

theorem AmongRows.inside {es : List Expr} {x y : Extent} (h : AmongRows es x y)
    (hes : ∀ e ∈ es, e.Placed) : x.start ≤ y.start ∧ y.start < y.stop ∧ y.stop ≤ x.stop ∧
      (x.start < y.start ∨ y.stop < x.stop) := by
  obtain ⟨value, at_, parts, ⟨e, he, hoccurs⟩, _, part, hpart, d, hd, rfl⟩ := h
  obtain ⟨hplaced, _⟩ := (hes e he).of_occurs hoccurs
  have hvalue : value ∈ (Expr.subscript x value (.tuple at_ parts)).children :=
    List.mem_cons_self ..
  have hindex : Expr.tuple at_ parts ∈ (Expr.subscript x value (.tuple at_ parts)).children :=
    List.mem_cons_of_mem value (List.mem_singleton_self _)
  have hchild : part ∈ (Expr.tuple at_ parts).children := List.dropLast_subset parts hpart
  obtain ⟨hdplaced, hstart, hstop⟩ := (hplaced.child hindex).of_occurs (.inside hchild hd)
  have hapart : Expr.Apart value (.tuple at_ parts) :=
    List.rel_of_pairwise_cons hplaced.apart (List.mem_singleton_self _)
  have hinside := hplaced.inside hindex
  have hinside' := hplaced.inside hvalue
  have hlt := (hplaced.child hvalue).start_lt
  have hextent : (Expr.subscript x value (.tuple at_ parts)).extent = x := rfl
  rw [hextent] at hinside hinside'
  refine ⟨by omega, hdplaced.start_lt, by omega, ?_⟩
  rcases hapart with hbefore | hbefore
  · exact .inl (by omega)
  · exact .inr (by omega)

/-- Two places of which the one is apart from the other or has it among its rows. -/
def Beside (es : List Expr) (x y : Extent) : Prop := ApartAt x y ∨ AmongRows es x y

theorem apart_of_stand {es fs : List Expr} {x y : Extent} (hx : StandsIn es x) (hy : StandsIn fs y)
    (hes : ∀ e ∈ es, e.Placed) (hfs : ∀ f ∈ fs, f.Placed)
    (hapart : ∀ e ∈ es, ∀ f ∈ fs, Expr.Apart e f) : ApartAt x y := by
  obtain ⟨e, he, c, hc, rfl⟩ := hx
  obtain ⟨f, hf, d, hd, rfl⟩ := hy
  obtain ⟨_, hstart, hstop⟩ := (hes e he).of_occurs hc
  obtain ⟨_, hstart', hstop'⟩ := (hfs f hf).of_occurs hd
  refine (hapart e he f hf).imp (fun hbefore => ?_) (fun hbefore => ?_) <;> omega

/-! ## Scans -/

/-- The reads of a scan of some expressions lie beside one another. -/
def ReadsBeside (t : Trace) (es : List Expr) : Prop :=
  t.reads.Pairwise fun o p => Beside es o.extent p.extent

namespace ReadsBeside

variable {t t' : Trace} {es fs : List Expr}

theorem empty : ReadsBeside .empty es := .nil

theorem read {column : Column} {shift : Shift} {x : Extent} :
    ReadsBeside (.read column shift x) es :=
  List.pairwise_singleton ..

theorem mono (h : ReadsBeside t es) (hsub : es ⊆ fs) : ReadsBeside t fs :=
  h.imp fun hbeside => hbeside.imp_right (·.mono hsub)

theorem enclose {e : Expr} (h : ReadsBeside t es) (hsub : es ⊆ e.children) : ReadsBeside t [e] :=
  h.imp fun hbeside => hbeside.imp_right (·.enclose hsub)

theorem child {c e : Expr} (h : ReadsBeside t [c]) (hc : c ∈ e.children) : ReadsBeside t [e] :=
  h.enclose (singleton_subset hc)

theorem append (h : ReadsBeside t es) (h' : ReadsBeside t' fs) (hin : ReadsIn t es)
    (hin' : ReadsIn t' fs) (hplaced : ∀ e ∈ es ++ fs, e.Placed)
    (hapart : (es ++ fs).Pairwise Expr.Apart) : ReadsBeside (t ++ t') (es ++ fs) := by
  obtain ⟨hes, hfs⟩ := List.forall_mem_append.mp hplaced
  refine List.pairwise_append.mpr ⟨h.mono (List.subset_append_left ..),
    h'.mono (List.subset_append_right ..), fun o ho o' ho' => .inl ?_⟩
  exact apart_of_stand (hin o ho) (hin' o' ho') hes hfs (List.pairwise_append.mp hapart).2.2

end ReadsBeside

theorem rows_read_in (es : List Expr) : ReadsIn (scanInit imported es) es.dropLast := by
  rcases List.eq_nil_or_concat es with rfl | ⟨front, last, rfl⟩
  · exact .empty
  · rw [List.concat_eq_append, scan_init_concat, List.dropLast_concat]
    exact scan_all_reads_in (some 0) front

/-- What a call has as its receiver is scanned like what it calls, unless that is a name. -/
theorem receiver_reads {inner : Shift} {func : Expr}
    (h : ReadsBeside (scan imported inner func) [func]) :
    ReadsBeside (receiverTrace imported inner func) [func] ∧
      ReadsIn (receiverTrace imported inner func) [func] := by
  have hscanned : ReadsBeside (scan imported inner func) [func] ∧
      ReadsIn (scan imported inner func) [func] := ⟨h, scan_reads_in inner func⟩
  cases func with
  | name x id role => exact ⟨.empty, .empty⟩
  | member x v attr =>
    by_cases hname : ∃ at_ base role, v = .name at_ base role
    · obtain ⟨at_, base, role, rfl⟩ := hname
      refine ⟨?_, (scan_reads_in inner (.name at_ base role)).child (List.mem_singleton_self _)⟩
      rw [receiverTrace, scan]
      split
      · exact .read
      · exact .empty
    · rwa [scan_member_of_ne fun at_ id role h => hname ⟨at_, id, role, h⟩] at hscanned
  | _ => exact hscanned

mutual

theorem scan_reads_beside (shift : Shift) (e : Expr) (h : e.Placed) :
    ReadsBeside (scan imported shift e) [e] := by
  cases e with
  | name x id role =>
    rw [scan]
    split
    · exact .read
    · exact .empty
  | constant x v => exact .empty
  | member x value attr =>
    by_cases hname : ∃ at_ base role, value = .name at_ base role
    · obtain ⟨at_, base, role, rfl⟩ := hname
      rw [scan]
      split
      · exact .empty
      · split
        · exact .read
        · exact .read
    · rw [scan_member_of_ne fun at_ id role h => hname ⟨at_, id, role, h⟩]
      exact (scan_reads_beside shift value (h.child (List.mem_cons_self ..))).enclose
        (List.Subset.refl _)
  -- Of a column, only the rows of an indexer are read besides the column itself.
  | subscript x value index =>
    have hvalue : value ∈ (Expr.subscript x value index).children := List.mem_cons_self ..
    have hindex : index ∈ (Expr.subscript x value index).children :=
      List.mem_cons_of_mem value (List.mem_singleton_self index)
    cases hc : columnOf? imported value index with
    | some c =>
      rw [scan_column hc]
      unfold rowsTrace
      split
      · next hindexed =>
        cases index with
        | tuple y parts =>
          refine List.pairwise_cons.mpr ⟨fun o ho => .inr ?_, ?_⟩
          · exact ⟨value, y, parts, ⟨_, List.mem_singleton_self _, .here⟩, hindexed,
              rows_read_in parts o ho⟩
          · have hparts : ∀ p ∈ parts, p.Placed := fun p hp => (h.child hindex).child hp
            exact ((scan_init_reads_beside parts hparts (h.child hindex).apart).enclose
              (List.Subset.refl _)).child hindex
        | _ => exact .read
      · exact .read
    | none =>
      cases hk : keyColumns? value index with
      | some columns =>
        rw [scan_keys hc hk]
        have hapart : (columns.map (·.2)).Pairwise ApartAt := by
          rw [key_columns_at hk]
          exact List.pairwise_map.mpr (h.child hindex).apart
        exact List.pairwise_map.mpr ((List.pairwise_map.mp hapart).imp .inl)
      | none =>
        rw [scan_parts hc hk]
        exact ((scan_reads_beside shift value (h.child hvalue)).append
          (scan_reads_beside (some 0) index (h.child hindex)) (scan_reads_in shift value)
          (scan_reads_in (some 0) index) (fun _ => h.child) h.apart).enclose (List.Subset.refl _)
  | call x func arguments =>
    have hfunc : func ∈ (Expr.call x func arguments).children := List.mem_cons_self ..
    have hargs : ∀ a ∈ arguments, a ∈ (Expr.call x func arguments).children :=
      fun _ => List.mem_cons_of_mem func
    have hreceiver := fun inner => receiver_reads (scan_reads_beside inner func (h.child hfunc))
    have hall : ∀ shift, ReadsBeside (scanAll imported shift arguments) arguments := fun shift =>
      scan_all_reads_beside shift arguments (fun a ha => h.child (hargs a ha))
        (List.pairwise_cons.mp h.apart).2
    have hboth : ∀ inner shift, ReadsBeside
        (receiverTrace imported inner func ++ scanAll imported shift arguments)
        [.call x func arguments] := fun inner shift =>
      ((hreceiver inner).1.append (hall shift) (hreceiver inner).2
        (scan_all_reads_in shift arguments) (fun _ => h.child) h.apart).enclose
        (List.Subset.refl _)
    rw [scan_call, ReadsBeside, Trace.reads_append]
    exact (List.append_nil _).symm ▸ hboth _ _
  | keyword x name value | starred x value | unary x op value =>
    rw [scan]
    exact (scan_reads_beside shift value (h.child (List.mem_singleton_self _))).enclose
      (List.Subset.refl _)
  | binary x op l r =>
    rw [scan]
    have hl : l ∈ (Expr.binary x op l r).children := List.mem_cons_self ..
    have hr : r ∈ (Expr.binary x op l r).children :=
      List.mem_cons_of_mem l (List.mem_singleton_self r)
    exact ((scan_reads_beside shift l (h.child hl)).append (scan_reads_beside shift r (h.child hr))
      (scan_reads_in shift l) (scan_reads_in shift r) (fun _ => h.child) h.apart).enclose
      (List.Subset.refl _)
  | tuple x es | list x es | set x es | composite x form es =>
    rw [scan]
    exact (scan_all_reads_beside shift es (fun _ => h.child) h.apart).enclose (List.Subset.refl _)
  | dict x ks vs =>
    rw [scan]
    have hks : ∀ k ∈ ks, k.Placed := fun k hk => h.child (List.mem_append_left vs hk)
    have hvs : ∀ v ∈ vs, v.Placed := fun v hv => h.child (List.mem_append_right ks hv)
    obtain ⟨hkapart, hvapart, _⟩ := List.pairwise_append.mp h.apart
    exact ((scan_all_reads_beside shift ks hks hkapart).append
      (scan_all_reads_beside shift vs hvs hvapart) (scan_all_reads_in shift ks)
      (scan_all_reads_in shift vs) (fun _ => h.child) h.apart).enclose (List.Subset.refl _)

theorem scan_all_reads_beside (shift : Shift) (es : List Expr) (hes : ∀ e ∈ es, e.Placed)
    (hapart : es.Pairwise Expr.Apart) : ReadsBeside (scanAll imported shift es) es := by
  cases es with
  | nil => exact .empty
  | cons e es =>
    rw [scanAll]
    obtain ⟨he, hrest⟩ := List.forall_mem_cons.mp hes
    exact (scan_reads_beside shift e he).append
      (scan_all_reads_beside shift es hrest (List.pairwise_cons.mp hapart).2)
      (scan_reads_in shift e) (scan_all_reads_in shift es) hes hapart

theorem scan_init_reads_beside (es : List Expr) (hes : ∀ e ∈ es, e.Placed)
    (hapart : es.Pairwise Expr.Apart) : ReadsBeside (scanInit imported es) es := by
  cases es with
  | nil => exact .empty
  | cons e es =>
    cases es with
    | nil => exact .empty
    | cons f es =>
      rw [scanInit]
      obtain ⟨he, hrest⟩ := List.forall_mem_cons.mp hes
      exact (scan_reads_beside (some 0) e he).append
        (scan_init_reads_beside (f :: es) hrest (List.pairwise_cons.mp hapart).2)
        (scan_reads_in (some 0) e) (scan_init_reads_in (f :: es)) hes hapart

end

/-! ## Assignments -/

/-- Two places that are one, or one of which is beside the other. -/
def Nested (es : List Expr) (x y : Extent) : Prop := x = y ∨ Beside es x y ∨ Beside es y x

theorem Nested.symm {es : List Expr} {x y : Extent} (h : Nested es x y) : Nested es y x :=
  h.imp Eq.symm Or.symm

theorem ReadsAt.nested {es : List Expr} {xs : List Extent} (h : ReadsAt imported es xs)
    (hes : ∀ e ∈ es, e.Placed) (hapart : es.Pairwise Expr.Apart) : xs.Pairwise (Nested es) := by
  have hscan : ∀ {e : Expr}, e.Placed → ((scan imported (some 0) e).reads.map (·.extent)).Pairwise
      (Beside [e]) := fun he => List.pairwise_map.mpr (scan_reads_beside (some 0) _ he)
  cases h with
  | nothing => exact .nil
  | @value v e hv he =>
    rcases he with rfl | he
    · exact (hscan (hes _ hv)).imp fun hxy => .inr (.inl (hxy.imp_right
        (·.mono (singleton_subset hv))))
    · exact (hscan ((hes v hv).child he)).imp fun hxy => .inr (.inl (hxy.imp_right fun hrows =>
        (hrows.enclose (singleton_subset he)).mono (singleton_subset hv)))
  | @again t v n hsub =>
    have ht : t ∈ es := hsub.subset (List.mem_cons_self ..)
    have hv : v ∈ es := hsub.subset (by simp)
    have hbefore : Expr.Apart t v := List.rel_of_pairwise_cons (hapart.sublist hsub) (by simp)
    refine List.pairwise_append.mpr ⟨?_, List.pairwise_replicate.mpr (.inr (.inl rfl)), ?_⟩
    · exact (hscan (hes v hv)).imp fun hxy => .inr (.inl (hxy.imp_right
        (·.mono (singleton_subset hv))))
    · intro x hx y hy
      obtain ⟨o, ho, rfl⟩ := List.mem_map.mp hx
      rw [List.eq_of_mem_replicate hy]
      refine .inr (.inl (.inl (apart_of_stand (scan_reads_in (some 0) v o ho)
        (.self (List.mem_singleton_self t)) ?_ ?_ ?_)))
      · exact List.forall_mem_singleton.mpr (hes v hv)
      · exact List.forall_mem_singleton.mpr (hes t ht)
      · simpa using hbefore.symm

/-- Of two reads of one assignment of a unit either both are at one place, or they are apart, or one
is among the rows of the other. -/
theorem reads_nested {text name : String} {unit : SourceUnit}
    (h : SourceUnit.parse text name = .ok unit) {a : Assignment}
    (ha : a ∈ (Graph.ofUnit unit).assignments.toList) {r r' : Read} (hr : r ∈ a.reads)
    (hr' : r' ∈ a.reads) : Nested (Stmt.expressionsOfAll unit.statements) r.extent r'.extent := by
  obtain ⟨hplaced, hapart⟩ := SourceUnit.expressions_placed h
  have hnested := (unit_reads_from unit ha).nested (fun e he => (hplaced e he).1) hapart
  have hsymm : Std.Symm (Nested (Stmt.expressionsOfAll unit.statements)) := ⟨fun _ _ => .symm⟩
  by_cases heq : r.extent = r'.extent
  · exact .inl heq
  · exact hnested.forall (List.mem_map_of_mem hr) (List.mem_map_of_mem hr') heq

end BacktestAudit.Flow
