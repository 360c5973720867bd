import BacktestAudit.Proofs.Flow.LagOrder
import BacktestAudit.Proofs.Flow.LaggedScan
import BacktestAudit.Proofs.Flow.Related

/-!
The graph of a unit with lagged reads. Its assignments and their reads correspond to those without
the lags one by one, and none of them has a smaller shift or a smaller lag.
-/
namespace BacktestAudit.Flow
open BacktestAudit.Syntax BacktestAudit.Source
set_option autoImplicit false

/-! ## The order of lags -/

theorem shifted_le {a a' : Lag} {s s' : Shift} (ha : Lag.le a a' = true) (hs : ShiftLe s s') :
    Lag.le (Lag.shifted a s) (Lag.shifted a' s') = true := by
  cases s with
  | none =>
    cases s' with
    | none => exact Lag.shifted_mono none ha
    | some l => exact hs.elim
  | some k =>
    cases s' with
    | none => exact hs.elim
    | some l => exact Lag.le_trans (Lag.shifted_mono_right a hs) (Lag.shifted_mono (some l) ha)

theorem combine_mono {as bs : List Lag}
    (h : List.Forall₂ (fun a b => Lag.le a b = true) as bs) (hne : as ≠ []) :
    Lag.le (Lag.combine as) (Lag.combine bs) = true := by
  have hbs : bs ≠ [] := by
    intro hnil
    rw [hnil, List.forall₂_nil_right_iff] at h
    exact hne h
  obtain ⟨i, hi, heq⟩ := List.mem_iff_getElem.mp (Lag.combine_mem hbs)
  have hi' : i < as.length := h.length_eq ▸ hi
  rw [← heq]
  exact Lag.le_trans (Lag.combine_le (List.getElem_mem hi')) (h.get hi' hi)

/-! ## The order of graphs -/

/-- The same read, with a shift and a lag that are not smaller. -/
structure Read.Le (r r' : Read) : Prop where
  column_eq : r'.column = r.column
  source_eq : r'.source = r.source
  extent_eq : r'.extent = r.extent
  constant_eq : r'.sourceIsConstant = r.sourceIsConstant
  shift_le : ShiftLe r.shift r'.shift
  lag_le : Lag.le r.lag r'.lag = true

/-- The same assignment, with reads and a lag that are not smaller. -/
structure Assignment.Le (a a' : Assignment) : Prop where
  index_eq : a'.index = a.index
  target_eq : a'.target = a.target
  place_eq : a'.place = a.place
  constant_eq : a'.isConstant = a.isConstant
  reads : List.Forall₂ Read.Le a.reads a'.reads
  lag_le : Lag.le a.lag a'.lag = true

/-- A graph with the same assignments and reads, none of them with a smaller shift or lag, with the
same steps ahead and with all the calls. -/
structure Graph.Le (g g' : Graph) : Prop where
  assignments : List.Forall₂ Assignment.Le g.assignments.toList g'.assignments.toList
  edges_eq : g'.edges = g.edges
  calls : ∀ c ∈ g.calls, ∃ c' ∈ g'.calls, c.Same c'
  forward_eq : g'.forward = g.forward
  range_eq : g'.leavesRange = g.leavesRange

structure Progress.Le (p p' : Progress) : Prop where
  graph : p.graph.Le p'.graph
  live_eq : p'.live = p.live

namespace Progress.Le

variable {p p' : Progress} (h : p.Le p')
include h

theorem size_eq : p'.graph.assignments.size = p.graph.assignments.size :=
  h.graph.assignments.length_eq.symm

theorem producer (i : Nat) :
    Option.Rel Assignment.Le p.graph.assignments[i]? p'.graph.assignments[i]? := by
  rw [← Array.getElem?_toList, ← Array.getElem?_toList]
  exact forall₂_getElem? h.graph.assignments i

theorem resolve {o o' : Occurrence} (ho : o.Le o') : (p.resolve o).Le (p'.resolve o') := by
  have hsource : p'.lastWrite? o'.column = p.lastWrite? o.column := by
    unfold lastWrite?
    rw [h.live_eq, ho.column_eq]
  have hproducer : Option.Rel Assignment.Le ((p.lastWrite? o.column).bind (p.graph.assignments[·]?))
      ((p'.lastWrite? o'.column).bind (p'.graph.assignments[·]?)) := by
    rw [hsource]
    cases p.lastWrite? o.column with
    | none => exact .none
    | some i => exact h.producer i
  have hconstant := getD_map_rel (S := Eq) false hproducer (fun _ _ ha => ha.constant_eq.symm) rfl
  have hlag := getD_map_rel (S := fun a b => Lag.le a b = true) Lag.unknown hproducer
    (fun _ _ ha => ha.lag_le) (Lag.le_refl Lag.unknown)
  exact ⟨ho.column_eq, hsource, ho.extent_eq, hconstant.symm, ho.shift_le,
    shifted_le hlag ho.shift_le⟩

theorem resolve_all {os os' : List Occurrence} (hos : List.Forall₂ Occurrence.Le os os') :
    List.Forall₂ Read.Le (os.map p.resolve) (os'.map p'.resolve) :=
  List.rel_map (fun _ _ ho => h.resolve ho) hos

theorem absorb {t t' : Trace} (ht : t.Le t') : (p.absorb t).Le (p'.absorb t') := by
  refine ⟨⟨h.graph.assignments, h.graph.edges_eq, ?_, ?_, ?_⟩, h.live_eq⟩
  · intro c hc
    rcases List.mem_append.mp hc with hc | hc
    · obtain ⟨c', hc', hsame⟩ := h.graph.calls c hc
      exact ⟨c', List.mem_append_left _ hc', hsame⟩
    · obtain ⟨c', hc', hsame⟩ := ht.calls c hc
      exact ⟨c', List.mem_append_right _ hc', hsame⟩
  · exact congrArg₂ (· ++ ·) h.graph.forward_eq ht.forward_eq
  · exact congrArg₂ (· || ·) h.graph.range_eq ht.range_eq

theorem derive (ds ds' : List Derivation) : (p.derive ds).Le (p'.derive ds') :=
  ⟨⟨h.graph.assignments, h.graph.edges_eq, h.graph.calls, h.graph.forward_eq, h.graph.range_eq⟩,
    h.live_eq⟩

theorem record (target : Column) (e e' : Expr) (place : Lines) {reads reads' : List Read}
    (hreads : List.Forall₂ Read.Le reads reads') :
    (p.record target e place reads).Le (p'.record target e' place reads') := by
  have hinformative : List.Forall₂ Read.Le (reads.filter (!·.sourceIsConstant))
      (reads'.filter (!·.sourceIsConstant)) :=
    List.rel_filter (fun r r' hr => by simp only [hr.constant_eq]) hreads
  have hempty := isEmpty_of_forall₂ hinformative
  constructor
  · constructor
    · simp only [Progress.record, Array.toList_push]
      refine List.rel_append h.graph.assignments (.cons ⟨h.size_eq, rfl, rfl, hempty, hreads, ?_⟩ .nil)
      simp only [hempty]
      by_cases hnil : (reads.filter (!·.sourceIsConstant)).isEmpty = true
      · rw [if_pos hnil, if_pos hnil]
        exact Lag.le_refl _
      · rw [if_neg hnil, if_neg hnil]
        refine combine_mono (List.rel_map (fun _ _ hr => hr.lag_le) hinformative) ?_
        simpa using hnil
    · simp only [Progress.record, h.size_eq, h.graph.edges_eq]
      exact (List.rel_foldl (P := Eq) (fun es _ hes r r' hr => by rw [hes, hr.source_eq]) rfl
        hreads).symm
    · exact h.graph.calls
    · exact h.graph.forward_eq
    · exact h.graph.range_eq
  · simp only [Progress.record, h.live_eq, h.size_eq]

end Progress.Le

theorem carries_le : Carries Progress.Le Read.Le :=
  ⟨fun ds ds' h => h.derive ds ds', fun c e e' place _ _ h hreads => h.record c e e' place hreads⟩

/-! ## Statements -/

/-- An expression with some of its reads lagged. -/
def Lagged (imported : List String) (e e' : Expr) : Prop := ∃ w, e' = lagReads imported w e

variable {imported : List String}

theorem forall₂_lag_all (w : Places) (first : Nat) (es : List Expr) :
    List.Forall₂ (Lagged imported) es (lagAll imported w first es) := by
  induction es generalizing first with
  | nil => exact .nil
  | cons e es ih => exact .cons ⟨_, rfl⟩ (ih (first + 1))

theorem elementwise_lagged : Elementwise (Lagged imported) := by
  rintro e _ ⟨w, rfl⟩
  rw [elements_lag]
  cases elements? e with
  | none => exact .none
  | some es => exact .some (forall₂_lag_all w 0 es)

theorem Trace.Le.within {t t' : Trace} (h : t.Le t') (i : Nat) : (t.within i).Le (t'.within i) where
  reads := h.reads
  calls := by
    intro c hc
    obtain ⟨d, hd, rfl⟩ := List.mem_map.mp hc
    obtain ⟨d', hd', hsame⟩ := h.calls d hd
    exact ⟨_, List.mem_map_of_mem hd', hsame.method_eq, hsame.function_eq, hsame.keywords_eq⟩
  forward_eq := by
    unfold Trace.within
    rw [h.forward_eq]
  range_eq := h.range_eq

namespace Progress.Le

variable {p p' : Progress} (h : p.Le p')
include h

theorem assign (place : Lines) (w : Places) (targets : List Expr) (value : Expr) :
    (Flow.assign imported place targets value p).Le
      (Flow.assign imported place targets (lagReads imported w value) p') := by
  refine carries_le.assign elementwise_eq elementwise_lagged ?_ h h.size_eq
    ?_ ?_ place (List.forall₂_same.mpr fun _ _ => rfl) ⟨w, rfl⟩
  · rintro t _ rfl
    rfl
  · rintro q q' e _ i hq ⟨v, rfl⟩
    exact hq.absorb ((scan_lag v e (some 0)).le.within i)
  · rintro e _ ⟨v, rfl⟩
    exact h.resolve_all (scan_lag v e (some 0)).le.reads

theorem augment_all (cs : List Column) (e e' : Expr) (place : Lines) (at_ : Extent)
    {reads reads' : List Read} (hreads : List.Forall₂ Read.Le reads reads') :
    ((cs.foldl (fun (p, reads) c =>
      let reads := reads ++ [p.resolve ⟨c, some 0, at_⟩]
      (p.record c e place reads, reads)) (p, reads)).1).Le
    ((cs.foldl (fun (p, reads) c =>
      let reads := reads ++ [p.resolve ⟨c, some 0, at_⟩]
      (p.record c e' place reads, reads)) (p', reads')).1) := by
  induction cs generalizing p p' reads reads' with
  | nil => exact h
  | cons c cs ih =>
    have hread := h.resolve (o := ⟨c, some 0, at_⟩) ⟨rfl, rfl, ShiftLe.refl (some 0)⟩
    have hall := List.rel_append hreads (.cons hread .nil)
    exact ih (h.record c e e' place hall) hall

theorem augment (place : Lines) (w : Places) (target value : Expr) :
    (Flow.augment imported place target value p).Le
      (Flow.augment imported place target (lagReads imported w value) p') := by
  have htrace := (@scan_lag imported w value (some 0)).le.within
    p.graph.assignments.size
  unfold Flow.augment
  rw [h.size_eq]
  exact (h.absorb htrace).augment_all _ _ _ place target.extent (h.resolve_all htrace.reads)

end Progress.Le

mutual

theorem visit_le (w : Places) (s : Stmt) {p p' : Progress} (h : p.Le p') :
    (visit imported p s).Le (visit imported p' (lagAssigned imported w s)) := by
  cases s with
  | assign e targets value => exact h.assign e.lines _ targets value
  | annotate e target typeHint value =>
    cases value with
    | none => exact h
    | some v => exact h.assign e.lines _ [target] v
  | augment e target value => exact h.augment e.lines _ target value
  | evaluate e value => exact h.absorb (Trace.Lagged.refl _).le
  | imports e kind names => exact h
  | define e kind name signature parts => exact visit_all_le w 0 parts h
  | compound e kind parts => exact visit_all_le w 0 parts h

theorem visit_all_le (w : Places) (first : Nat) (ss : List Stmt) {p p' : Progress} (h : p.Le p') :
    (visitAll imported p ss).Le (visitAll imported p' (lagAssignedAll imported w first ss)) := by
  cases ss with
  | nil => exact h
  | cons s ss => exact visit_all_le w (first + 1) ss (visit_le (w.below first) s h)

end

mutual

theorem defined_names_lag (w : Places) (s : Stmt) :
    (lagAssigned imported w s).definedNames = s.definedNames := by
  cases s with
  | define e kind name signature parts =>
    exact congrArg (name :: ·) (defined_names_of_all_lag w 0 parts)
  | compound e kind parts => exact defined_names_of_all_lag w 0 parts
  | _ => rfl

theorem defined_names_of_all_lag (w : Places) (first : Nat) (ss : List Stmt) :
    Stmt.definedNamesOfAll (lagAssignedAll imported w first ss) = Stmt.definedNamesOfAll ss := by
  cases ss with
  | nil => rfl
  | cons s ss =>
    exact congrArg₂ (· ++ ·) (defined_names_lag (w.below first) s)
      (defined_names_of_all_lag w (first + 1) ss)

end

theorem graph_lag (w : Places) (unit : SourceUnit) :
    (Graph.ofUnit unit).Le (Graph.ofUnit (lagUnit w unit)) := by
  have hstart : Progress.Le ⟨Graph.start unit, []⟩ ⟨Graph.start (lagUnit w unit), []⟩ :=
    ⟨⟨.nil, rfl, nofun, rfl, rfl⟩, rfl⟩
  unfold Graph.ofUnit lagUnit
  simp only [defined_names_of_all_lag]
  exact (visit_all_le w 0 unit.statements hstart).graph

end BacktestAudit.Flow
