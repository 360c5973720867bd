import BacktestAudit.Proofs.Flow.LastWrite
import BacktestAudit.Proofs.Flow.Origins

/-!
Where reads are. Every read that a graph records stands at an expression of the unit, as deep as it
may be, so it takes up bytes of the text.
-/
namespace BacktestAudit.Flow
open BacktestAudit.Syntax BacktestAudit.Source
set_option autoImplicit false

variable {imported : List String}

/-! ## What a scan reads -/

/-- All that a scan reads stands in some of several expressions. -/
def ReadsIn (t : Trace) (es : List Expr) : Prop := ∀ o ∈ t.reads, StandsIn es o.extent

namespace ReadsIn

variable {t : Trace} {es : List Expr}

theorem empty : ReadsIn .empty es := nofun

theorem enclose {e : Expr} (h : ReadsIn t es) (hsub : es ⊆ e.children) : ReadsIn t [e] :=
  fun o ho => (h o ho).enclose hsub

theorem child {c e : Expr} (h : ReadsIn t [c]) (hc : c ∈ e.children) : ReadsIn t [e] :=
  h.enclose (singleton_subset hc)

end ReadsIn

theorem ReadAs.stands {d : Expr} {c : Column} {x : Extent} (h : ReadAs imported d c x) :
    StandsIn [d] x := by
  cases h with
  | bare | member | column => exact .self (List.mem_singleton_self _)
  | frame => exact .enclose (.self (List.mem_singleton_self _)) (List.Subset.refl _)
  | key hkeys hmem =>
    exact ((key_columns_stand hkeys _ hmem).enclose (List.Subset.refl _)).enclose
      (List.subset_cons_self ..)

theorem Trace.Stems.reads_in {link : Option Nat} {t : Trace} {es : List Expr}
    (h : t.Stems imported link es) : ReadsIn t es := by
  intro o ho
  obtain ⟨e, he, d, hd, hread⟩ := h.reads o ho
  exact hread.stands.widen (List.forall_mem_singleton.mpr ⟨e, he, hd⟩)

/-- A scan reads where something stands in the expression. -/
theorem scan_reads_in (shift : Shift) (e : Expr) : ReadsIn (scan imported shift e) [e] :=
  (scan_stems shift e).reads_in

theorem scan_all_reads_in (shift : Shift) (es : List Expr) :
    ReadsIn (scanAll imported shift es) es :=
  (scan_all_stems shift es).reads_in

theorem scan_init_reads_in (es : List Expr) : ReadsIn (scanInit imported es) es :=
  (scan_init_stems es).reads_in

/-! ## What a graph reads -/

/-- Where an assignment among several expressions reads: where a scan of a value or of a part of it
does, and an augmented one at its target besides. -/
inductive ReadsAt (imported : List String) (es : List Expr) : List Extent → Prop
  | nothing : ReadsAt imported es []
  | value {v e : Expr} (hv : v ∈ es) (he : e = v ∨ e ∈ v.children) :
      ReadsAt imported es ((scan imported (some 0) e).reads.map (·.extent))
  | again {t v : Expr} (n : Nat) (hes : [t, v].Sublist es) :
      ReadsAt imported es
        ((scan imported (some 0) v).reads.map (·.extent) ++ List.replicate n t.extent)

theorem ReadsAt.mono {es fs : List Expr} {xs : List Extent} (h : ReadsAt imported es xs)
    (hsub : es.Sublist fs) : ReadsAt imported fs xs := by
  cases h with
  | nothing => exact .nothing
  | value hv he => exact .value (hsub.subset hv) he
  | again n hes => exact .again n (hes.trans hsub)

theorem ReadsAt.stand {es : List Expr} {xs : List Extent} (h : ReadsAt imported es xs) :
    ∀ x ∈ xs, StandsIn es x := by
  have hscan : ∀ {v : Expr}, v ∈ es →
      ∀ x ∈ (scan imported (some 0) v).reads.map (·.extent), StandsIn es x := by
    intro v hv x hx
    obtain ⟨o, ho, rfl⟩ := List.mem_map.mp hx
    exact (scan_reads_in (some 0) v o ho).mono (singleton_subset hv)
  cases h with
  | nothing => nofun
  | @value v e hv he =>
    rcases he with rfl | he
    · exact hscan hv
    · intro x hx
      obtain ⟨o, ho, rfl⟩ := List.mem_map.mp hx
      exact ((scan_reads_in (some 0) e).child he o ho).mono (singleton_subset hv)
  | again n hes =>
    refine List.forall_mem_append.mpr ⟨hscan (hes.subset (by simp)), fun x hx => ?_⟩
    rw [List.eq_of_mem_replicate hx]
    exact .self (hes.subset (List.mem_cons_self ..))

/-- What an assignment among several expressions reads. -/
def ReadFrom (imported : List String) (es : List Expr) (reads : List Read) : Prop :=
  ReadsAt imported es (reads.map (·.extent))

theorem extents_of_resolved (p : Progress) (t : Trace) :
    (t.reads.map p.resolve).map (·.extent) = t.reads.map (·.extent) := by
  rw [List.map_map]
  rfl

theorem used_part_occurs {targets : List Expr} {value : Expr} {part : Part × Expr}
    (h : part ∈ usedParts (pairTargets targets value)) : part.2 = value ∨ part.2 ∈ value.children := by
  rw [used_parts_eq] at h
  obtain ⟨t, _, hpart⟩ := List.mem_flatMap.mp (add_subset [] _ h)
  exact part_occurs hpart

theorem assign_reads_from (place : Lines) (targets : List Expr) (value : Expr) (p : Progress) :
    p.AddsReads (ReadFrom imported [value]) (assign imported place targets value p) := by
  refine .assign .nothing fun part hpart => ?_
  rw [ReadFrom, extents_of_resolved]
  exact .value (List.mem_singleton_self value) (used_part_occurs hpart)

/-- What is read of a value, and then at a target as often as it has columns so far. -/
def ReadAgain (imported : List String) (target value : Expr) (reads : List Read) : Prop :=
  ∃ n, reads.map (·.extent) =
    (scan imported (some 0) value).reads.map (·.extent) ++ List.replicate n target.extent

theorem ReadAgain.next {target value : Expr} {reads : List Read}
    (h : ReadAgain imported target value reads) (p : Progress) (c : Column) :
    ReadAgain imported target value (reads ++ [p.resolve ⟨c, some 0, target.extent⟩]) := by
  obtain ⟨n, hreads⟩ := h
  refine ⟨n + 1, ?_⟩
  rw [List.map_append, hreads, List.append_assoc, List.replicate_succ']
  rfl

theorem augment_reads_from (place : Lines) (target value : Expr) (p : Progress) :
    p.AddsReads (ReadFrom imported [target, value]) (augment imported place target value p) := by
  have hfirst : ReadAgain imported target value
      ((scan imported (some 0) value).reads.map p.resolve) := by
    refine ⟨0, ?_⟩
    rw [extents_of_resolved, List.replicate_zero, List.append_nil]
  have hadds : p.AddsReads (ReadAgain imported target value)
      (augment imported place target value p) :=
    .augment (fun q c _ _ h => h.next q c) hfirst
  refine hadds.mono ?_
  rintro reads ⟨n, hreads⟩
  rw [ReadFrom, hreads]
  exact .again n (List.Sublist.refl _)

theorem Progress.AddsReads.widen {es fs : List Expr} {p q : Progress}
    (h : p.AddsReads (ReadFrom imported es) q) (hsub : es.Sublist fs) :
    p.AddsReads (ReadFrom imported fs) q :=
  h.mono fun _ hr => hr.mono hsub

mutual

theorem visit_reads_from (p : Progress) (s : Stmt) :
    p.AddsReads (ReadFrom imported s.expressions) (visit imported p s) := by
  cases s with
  | assign x targets value =>
    exact (assign_reads_from x.lines targets value p).widen (List.sublist_append_right ..)
  | annotate x target typeHint value =>
    cases value with
    | none => exact .refl
    | some v =>
      refine (assign_reads_from x.lines [target] v p).widen ?_
      exact List.sublist_append_right [target, typeHint] [v]
  | augment x target value => exact augment_reads_from x.lines target value p
  | evaluate x value => exact .refl
  | imports x kind names => exact .refl
  | define x kind name signature parts =>
    rw [visit, Stmt.expressions]
    exact (visit_all_reads_from p parts).widen (List.sublist_append_right ..)
  | compound x kind parts =>
    rw [visit, Stmt.expressions]
    exact visit_all_reads_from p parts

theorem visit_all_reads_from (p : Progress) (ss : List Stmt) :
    p.AddsReads (ReadFrom imported (Stmt.expressionsOfAll ss)) (visitAll imported p ss) := by
  cases ss with
  | nil => exact .refl
  | cons s ss =>
    rw [visitAll, Stmt.expressionsOfAll]
    exact ((visit_reads_from p s).widen (List.sublist_append_left ..)).trans
      ((visit_all_reads_from _ ss).widen (List.sublist_append_right ..))

end

/-- Every assignment of a unit reads among its expressions. -/
theorem unit_reads_from (unit : SourceUnit) {a : Assignment}
    (ha : a ∈ (Graph.ofUnit unit).assignments.toList) :
    ReadFrom (Stmt.definedNamesOfAll unit.statements) (Stmt.expressionsOfAll unit.statements)
      a.reads := by
  let imported := Stmt.definedNamesOfAll unit.statements
  have hadds : Progress.AddsReads (ReadFrom imported (Stmt.expressionsOfAll unit.statements))
      ⟨Graph.start unit, []⟩ (visitAll imported ⟨Graph.start unit, []⟩ unit.statements) :=
    visit_all_reads_from _ _
  obtain ⟨added, heq, hadded⟩ := hadds
  have hgraph : (Graph.ofUnit unit).assignments.toList = added := heq
  exact hadded a (hgraph ▸ ha)

/-- Every read of a unit stands in one of its expressions. -/
theorem unit_reads_in (unit : SourceUnit) {a : Assignment}
    (ha : a ∈ (Graph.ofUnit unit).assignments.toList) {r : Read} (hr : r ∈ a.reads) :
    StandsIn (Stmt.expressionsOfAll unit.statements) r.extent :=
  (unit_reads_from unit ha).stand r.extent (List.mem_map_of_mem hr)

/-- A read of a program takes up bytes of the text. -/
theorem read_placed {text name : String} {unit : SourceUnit}
    (h : SourceUnit.parse text name = .ok unit) {a : Assignment}
    (ha : a ∈ (Graph.ofUnit unit).assignments.toList) {r : Read} (hr : r ∈ a.reads) :
    r.extent.start < r.extent.stop ∧ r.extent.stop ≤ (Text.encode text).length := by
  obtain ⟨e, he, d, hd, hextent⟩ := unit_reads_in unit ha hr
  obtain ⟨hplaced, hstop⟩ := (SourceUnit.expressions_placed h).1 e he
  obtain ⟨hd, _, hle⟩ := hplaced.of_occurs hd
  have hlt := hd.start_lt
  rw [hextent]
  exact ⟨hlt, by omega⟩

end BacktestAudit.Flow
