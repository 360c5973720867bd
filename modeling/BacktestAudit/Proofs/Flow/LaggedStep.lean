import BacktestAudit.Proofs.Flow.LaggedGraph
import BacktestAudit.Proofs.Flow.LastWrite
import BacktestAudit.Proofs.Flow.ScannedAlike

/-!
A unit that is written anew with some reads of one of its statements lagged by a bar. What stands
before that statement reads what it read, from the same sources and with the same lags; the statement
reads the same columns, each under the same shift or under one of a bar more.
-/
namespace BacktestAudit.Flow
open BacktestAudit.Syntax BacktestAudit.Source
set_option autoImplicit false

variable {imported : List String}

/-! ## Expressions that are written anew -/

/-- The same expression, maybe at other places. -/
def SameApart (e e' : Expr) : Prop := e'.unplaced = e.unplaced

/-- An expression with some of its reads lagged, maybe at other places. -/
def LaggedApart (imported : List String) : Expr → Expr → Prop :=
  Relation.Comp (Lagged imported) SameApart

theorem forall₂_of_map_eq {α β : Type} {f : α → β} {as bs : List α} (h : bs.map f = as.map f) :
    List.Forall₂ (fun a b => f b = f a) as bs := by
  have hflip : List.Forall₂ (fun b a => f b = f a) bs as :=
    List.forall₂_map_left_iff.mp (List.forall₂_map_right_iff.mp (List.forall₂_eq_eq_eq.symm ▸ h))
  exact hflip.flip

theorem elementwise_same : Elementwise SameApart := by
  intro e e' h
  have helements := congrArg elements? h
  rw [elements_unplaced, elements_unplaced] at helements
  generalize elements? e = es, elements? e' = es' at helements
  cases es with
  | none =>
    cases es' with
    | none => exact .none
    | some _ => nomatch helements
  | some es =>
    cases es' with
    | none => nomatch helements
    | some es' => exact .some (forall₂_of_map_eq (Option.some.inj helements))

theorem elementwise_lagged_apart : Elementwise (LaggedApart imported) :=
  elementwise_lagged.comp elementwise_same

/-- A read of the same column under a related shift. -/
structure Occurrence.Alike (K : Shift → Shift → Prop) (o o' : Occurrence) : Prop where
  column_eq : o'.column = o.column
  shift : K o.shift o'.shift

theorem scan_same {e e' : Expr} (h : SameApart e e') (shift : Shift) :
    List.Forall₂ (Occurrence.Alike Eq) (scan imported shift e).reads
      (scan imported shift e').reads := by
  have hshifts : (scan imported shift e').shifts = (scan imported shift e).shifts := by
    rw [← scan_unplaced shift e', h, scan_unplaced]
  refine (forall₂_of_map_eq hshifts).imp fun o o' ho => ?_
  obtain ⟨hcolumn, hshift⟩ := Prod.mk.inj ho
  exact ⟨hcolumn, hshift.symm⟩

theorem scan_lagged_apart {e e' : Expr} (h : LaggedApart imported e e') (shift : Shift) :
    List.Forall₂ (Occurrence.Alike ShiftStep) (scan imported shift e).reads
      (scan imported shift e').reads := by
  obtain ⟨_, ⟨w, rfl⟩, hsame⟩ := h
  refine (forall₂_comp (scan_lag w e shift).reads (scan_same hsame shift)).imp ?_
  rintro o o' ⟨d, hlagged, halike⟩
  exact ⟨halike.column_eq.trans hlagged.column_eq, halike.shift ▸ hlagged.shift_step⟩

/-! ## Reads and assignments that are written anew -/

/-- A read of the same column from the same source, under a related shift of the same lag. -/
structure Read.Alike (K : Shift → Shift → Prop) (r r' : Read) : Prop where
  column_eq : r'.column = r.column
  source_eq : r'.source = r.source
  constant_eq : r'.sourceIsConstant = r.sourceIsConstant
  shift : K r.shift r'.shift
  lag : ∃ upstream, r.lag = Lag.shifted upstream r.shift ∧ r'.lag = Lag.shifted upstream r'.shift

/-- An assignment to the same column on the same lines, with reads that are alike. -/
structure Assignment.Alike (K : Shift → Shift → Prop) (a a' : Assignment) : Prop where
  target_eq : a'.target = a.target
  place_eq : a'.place = a.place
  constant_eq : a'.isConstant = a.isConstant
  reads : List.Forall₂ (Read.Alike K) a.reads a'.reads

/-- The same assignment, maybe at other places. -/
structure Assignment.Same (a a' : Assignment) : Prop extends a.Alike Eq a' where
  lag_eq : a'.lag = a.lag

theorem Read.Alike.lag_eq {r r' : Read} (h : r.Alike Eq r') : r'.lag = r.lag := by
  obtain ⟨upstream, hlag, hlag'⟩ := h.lag
  rw [hlag', hlag, h.shift]

theorem Assignment.Alike.mono {K L : Shift → Shift → Prop} (hKL : ∀ s s', K s s' → L s s')
    {a a' : Assignment} (h : a.Alike K a') : a.Alike L a' :=
  ⟨h.target_eq, h.place_eq, h.constant_eq, h.reads.imp fun _ _ hr =>
    ⟨hr.column_eq, hr.source_eq, hr.constant_eq, hKL _ _ hr.shift, hr.lag⟩⟩

/-- Two graphs so far with related assignments, where columns were last written alike. -/
structure Progress.Alike (A : Assignment → Assignment → Prop) (p p' : Progress) : Prop where
  assignments : List.Forall₂ A p.graph.assignments.toList p'.graph.assignments.toList
  live_eq : p'.live = p.live

namespace Progress.Alike

variable {A : Assignment → Assignment → Prop} {p p' : Progress}

theorem size_eq (h : p.Alike A p') :
    p'.graph.assignments.size = p.graph.assignments.size :=
  h.assignments.length_eq.symm

theorem mono {B : Assignment → Assignment → Prop} (hAB : ∀ a a', A a a' → B a a')
    (h : p.Alike A p') : p.Alike B p' :=
  ⟨h.assignments.imp hAB, h.live_eq⟩

theorem absorb (h : p.Alike A p') (t t' : Trace) : (p.absorb t).Alike A (p'.absorb t') :=
  ⟨h.assignments, h.live_eq⟩

theorem resolve {K : Shift → Shift → Prop} (h : p.Alike Assignment.Same p') {o o' : Occurrence}
    (ho : o.Alike K o') : (p.resolve o).Alike K (p'.resolve o') := by
  have hsource : p'.lastWrite? o'.column = p.lastWrite? o.column := by
    unfold lastWrite?
    rw [h.live_eq, ho.column_eq]
  have hproducer : Option.Rel Assignment.Same
      ((p.lastWrite? o.column).bind (p.graph.assignments[·]?))
      ((p'.lastWrite? o'.column).bind (p'.graph.assignments[·]?)) := by
    rw [hsource]
    cases p.lastWrite? o.column with
    | none => exact .none
    | some i =>
      simp only [Option.bind_some, ← Array.getElem?_toList]
      exact forall₂_getElem? h.assignments i
  have hconstant := getD_map_rel (S := Eq) false hproducer (fun _ _ ha => ha.constant_eq.symm) rfl
  have hlag := getD_map_rel (S := Eq) Lag.unknown hproducer (fun _ _ ha => ha.lag_eq.symm) rfl
  exact ⟨ho.column_eq, hsource, hconstant.symm, ho.shift, _, rfl,
    congrArg (Lag.shifted · o'.shift) hlag.symm⟩

theorem resolve_all {K : Shift → Shift → Prop} (h : p.Alike Assignment.Same p')
    {os os' : List Occurrence} (hos : List.Forall₂ (Occurrence.Alike K) os os') :
    List.Forall₂ (Read.Alike K) (os.map p.resolve) (os'.map p'.resolve) :=
  List.rel_map (fun _ _ ho => h.resolve ho) hos

end Progress.Alike

theorem filter_constant_alike {K : Shift → Shift → Prop} {reads reads' : List Read}
    (h : List.Forall₂ (Read.Alike K) reads reads') :
    List.Forall₂ (Read.Alike K) (reads.filter (!·.sourceIsConstant))
      (reads'.filter (!·.sourceIsConstant)) :=
  List.rel_filter (fun r r' hr => by simp only [hr.constant_eq]) h

theorem carries_alike (K : Shift → Shift → Prop) :
    Carries (Progress.Alike (Assignment.Alike K)) (Read.Alike K) where
  derive := fun _ _ h => ⟨h.assignments, h.live_eq⟩
  record := by
    intro p p' c e e' place reads reads' h hreads
    constructor
    · simp only [Progress.record, Array.toList_push]
      exact List.rel_append h.assignments
        (.cons ⟨rfl, rfl, isEmpty_of_forall₂ (filter_constant_alike hreads), hreads⟩ .nil)
    · simp only [Progress.record, h.live_eq, h.size_eq]

theorem carries_same : Carries (Progress.Alike Assignment.Same) (Read.Alike Eq) where
  derive := fun _ _ h => ⟨h.assignments, h.live_eq⟩
  record := by
    intro p p' c e e' place reads reads' h hreads
    have hinformative := filter_constant_alike hreads
    have hlags := map_eq_of_forall₂ hinformative fun r r' hr => (hr.lag_eq : r'.lag = r.lag)
    constructor
    · simp only [Progress.record, Array.toList_push]
      refine List.rel_append h.assignments
        (.cons ⟨⟨rfl, rfl, isEmpty_of_forall₂ hinformative, hreads⟩, ?_⟩ .nil)
      simp only [isEmpty_of_forall₂ hinformative, hlags]
    · simp only [Progress.record, h.live_eq, h.size_eq]

/-! ## Steps that are written anew -/

/-- Steps of the same form on the same lines: the targets are the same apart from their places, and
what is assigned is related. -/
inductive Corresponds (E : Expr → Expr → Prop) : Stmt → Stmt → Prop
  | assign {x x' : Extent} {targets targets' : List Expr} {value value' : Expr} :
    x'.lines = x.lines → List.Forall₂ SameApart targets targets' → E value value' →
      Corresponds E (.assign x targets value) (.assign x' targets' value')
  | annotate {x x' : Extent} {target target' : Expr} {typeHint typeHint' : Expr}
    {value value' : Option Expr} :
    x'.lines = x.lines → SameApart target target' → Option.Rel E value value' →
      Corresponds E (.annotate x target typeHint value) (.annotate x' target' typeHint' value')
  | augment {x x' : Extent} {target target' value value' : Expr} :
    x'.lines = x.lines → SameApart target target' → E value value' →
      Corresponds E (.augment x target value) (.augment x' target' value')
  | evaluate {x x' : Extent} {value value' : Expr} :
    Corresponds E (.evaluate x value) (.evaluate x' value')
  | imports {x x' : Extent} {kind kind' : StatementKind} {names names' : List String} :
    Corresponds E (.imports x kind names) (.imports x' kind' names')

theorem lines_of_on_lines {x x' : Extent} (h : x'.onLines = x.onLines) : x'.lines = x.lines := by
  obtain ⟨_, _, hfirst, hlast⟩ := Extent.mk.inj h
  rw [Extent.lines, Extent.lines, hfirst, hlast]

theorem corresponds_of_same {s s' : Stmt} (hstep : s.isStep = true) (h : s'.unplaced = s.unplaced) :
    Corresponds SameApart s s' := by
  cases s with
  | assign x targets value =>
    cases s' with
    | assign x' targets' value' =>
      obtain ⟨hx, htargets, hvalue⟩ := Stmt.assign.inj h
      exact .assign (lines_of_on_lines hx) (forall₂_of_map_eq htargets) hvalue
    | _ => nomatch h
  | annotate x target typeHint value =>
    cases s' with
    | annotate x' target' typeHint' value' =>
      obtain ⟨hx, htarget, _, hvalue⟩ := Stmt.annotate.inj h
      refine .annotate (lines_of_on_lines hx) htarget ?_
      cases value with
      | none =>
        cases value' with
        | none => exact .none
        | some _ => nomatch hvalue
      | some v =>
        cases value' with
        | none => nomatch hvalue
        | some v' => exact .some (Option.some.inj hvalue)
    | _ => nomatch h
  | augment x target value =>
    cases s' with
    | augment x' target' value' =>
      obtain ⟨hx, htarget, hvalue⟩ := Stmt.augment.inj h
      exact .augment (lines_of_on_lines hx) htarget hvalue
    | _ => nomatch h
  | evaluate x value =>
    cases s' with
    | evaluate x' value' => exact .evaluate
    | _ => nomatch h
  | imports x kind names =>
    cases s' with
    | imports x' kind' names' => exact .imports
    | _ => nomatch h
  | define x kind name signature parts => nomatch hstep
  | compound x kind parts => nomatch hstep

theorem corresponds_of_lagged {s s' : Stmt} (hstep : s.isStep = true) {w : Places}
    (h : s'.unplaced = (lagAssigned imported w s).unplaced) :
    Corresponds (LaggedApart imported) s s' := by
  cases s with
  | assign x targets value =>
    cases corresponds_of_same rfl h with
    | assign hx htargets hvalue => exact .assign hx htargets ⟨_, ⟨_, rfl⟩, hvalue⟩
  | annotate x target typeHint value =>
    cases corresponds_of_same rfl h with
    | annotate hx htarget hvalue =>
      refine .annotate hx htarget ?_
      cases value with
      | none =>
        cases hvalue
        exact .none
      | some v =>
        cases hvalue with
        | some hvalue => exact .some ⟨_, ⟨_, rfl⟩, hvalue⟩
  | augment x target value =>
    cases corresponds_of_same rfl h with
    | augment hx htarget hvalue => exact .augment hx htarget ⟨_, ⟨_, rfl⟩, hvalue⟩
  | evaluate x value =>
    cases corresponds_of_same rfl h
    exact .evaluate
  | imports x kind names =>
    cases corresponds_of_same rfl h
    exact .imports
  | define x kind name signature parts => nomatch hstep
  | compound x kind parts => nomatch hstep

theorem target_columns_same {t t' : Expr} (h : SameApart t t') :
    targetColumns imported t' = targetColumns imported t := by
  rw [← target_columns_unplaced t', h, target_columns_unplaced]

/-- Behind the same statements, a step that is written anew records assignments that are alike. -/
theorem visit_alike {K : Shift → Shift → Prop} {A : Assignment → Assignment → Prop}
    {E : Expr → Expr → Prop} (carries : Carries (Progress.Alike A) (Read.Alike K))
    (hA : ∀ a a', Assignment.Same a a' → A a a') (hE : Elementwise E)
    (hscan : ∀ e e', E e e' → List.Forall₂ (Occurrence.Alike K) (scan imported (some 0) e).reads
      (scan imported (some 0) e').reads)
    (hzero : K (some 0) (some 0)) {s s' : Stmt} (h : Corresponds E s s')
    (hproper : s.isProper = true) {p p' : Progress} (hp : p.Alike Assignment.Same p') :
    (visit imported p s).Alike A (visit imported p' s') := by
  have hassign : ∀ (place : Lines) {targets targets' : List Expr} {value value' : Expr},
      List.Forall₂ SameApart targets targets' → E value value' →
        (assign imported place targets value p).Alike A
          (assign imported place targets' value' p') := by
    intro place targets targets' value value' htargets hvalue
    exact carries.assign elementwise_same hE (fun _ _ => target_columns_same) (hp.mono hA) hp.size_eq
      (fun _ _ _ hq _ => hq.absorb _ _) (fun e e' he => hp.resolve_all (hscan e e' he)) place
      htargets hvalue
  cases h with
  | @assign x x' _ _ _ _ hx htargets hvalue =>
    rw [visit, visit, hx]
    exact hassign x.lines htargets hvalue
  | @annotate x x' _ _ _ _ _ _ hx htarget hvalue =>
    cases hvalue with
    | none => exact hp.mono hA
    | some hvalue =>
      rw [visit, visit, hx]
      exact hassign x.lines (.cons htarget .nil) hvalue
  | @augment x x' target target' value value' hx htarget hvalue =>
    have hreads := hp.resolve_all (hscan value value' hvalue)
    have habsorbed : ∀ t t', (p.absorb t).Alike Assignment.Same (p'.absorb t') := hp.absorb
    rw [visit, visit, hx]
    unfold augment
    rw [target_columns_same htarget]
    rcases target_columns_of_single imported hproper with hcolumns | ⟨c, hcolumns⟩
    · rw [hcolumns]
      exact (habsorbed _ _).mono hA
    · rw [hcolumns]
      refine carries.record c value value' x.lines ((habsorbed _ _).mono hA) ?_
      exact List.rel_append hreads (.cons ((habsorbed _ _).resolve ⟨rfl, hzero⟩) .nil)
  | evaluate => exact (hp.absorb _ _).mono hA
  | imports => exact hp.mono hA

theorem visit_all_same {ss ss' : List Stmt} (h : List.Forall₂ (Corresponds SameApart) ss ss')
    (hproper : ∀ s ∈ ss, s.isProper = true) {p p' : Progress} (hp : p.Alike Assignment.Same p') :
    (visitAll imported p ss).Alike Assignment.Same (visitAll imported p' ss') := by
  induction h generalizing p p' with
  | nil => exact hp
  | cons hs _ ih =>
    obtain ⟨hhead, htail⟩ := List.forall_mem_cons.mp hproper
    rw [visitAll, visitAll]
    exact ih htail (visit_alike carries_same (fun _ _ ha => ha) elementwise_same
      (fun _ _ he => scan_same he (some 0)) rfl hs hhead hp)

/-! ## Units that are written anew -/

/-- A unit that is written anew, in which some reads of the statement that records an assignment are
lagged by a bar. Otherwise it has the same steps on the same lines and defines the same names. -/
structure LaggedIn (unit : SourceUnit) (i : Nat) (unit' : SourceUnit) : Prop where
  names_eq : Stmt.definedNamesOfAll unit'.statements = Stmt.definedNamesOfAll unit.statements
  steps : ∃ before s after w, RecordedBy unit before s i ∧
    Stmt.stepsOfAll unit.statements = before ++ s :: after ∧
    (Stmt.stepsOfAll unit'.statements).map Stmt.unplaced =
      (before ++ lagAssigned (Stmt.definedNamesOfAll unit.statements) w s :: after).map Stmt.unplaced

/-- What a step has recorded stays as it is. -/
theorem recorded_after {unit : SourceUnit} {before after : List Stmt} {s : Stmt} {i : Nat}
    (hsteps : ∀ t ∈ Stmt.stepsOfAll unit.statements, t.isStep = true ∧ t.isProper = true)
    (hsplit : Stmt.stepsOfAll unit.statements = before ++ s :: after)
    (hi : i < (Progress.after unit (before ++ [s])).graph.assignments.size) :
    (Graph.ofUnit unit).assignments[i]? =
      (Progress.after unit (before ++ [s])).graph.assignments[i]? := by
  rw [hsplit, List.forall_mem_append, List.forall_mem_cons] at hsteps
  obtain ⟨rest, hrest, _⟩ := steps_add unit (before ++ [s]) after hsteps.2.2
  rw [graph_of_steps, hsplit, List.append_cons, ← Array.getElem?_toList, hrest,
    List.getElem?_append_left (by simpa using hi), Array.getElem?_toList]

/-- The assignment is recorded in the unit that is written anew as well, and it reads the same
columns from the same sources there, each under the same shift or under one of a bar more. -/
theorem LaggedIn.assignment {unit unit' : SourceUnit} {i : Nat} (h : LaggedIn unit i unit')
    (hsteps : ∀ t ∈ Stmt.stepsOfAll unit.statements, t.isStep = true ∧ t.isProper = true)
    (hsteps' : ∀ t ∈ Stmt.stepsOfAll unit'.statements, t.isStep = true ∧ t.isProper = true)
    {a : Assignment} (ha : (Graph.ofUnit unit).assignments[i]? = some a) :
    ∃ a', (Graph.ofUnit unit').assignments[i]? = some a' ∧ a.Alike ShiftStep a' := by
  obtain ⟨before, s, after, w, hby, hsplit, hmap⟩ := h.steps
  rw [List.map_append, List.map_cons] at hmap
  obtain ⟨before', rest, hsplit', hbefore, hrest⟩ := List.map_eq_append_iff.mp hmap
  obtain ⟨s', after', rfl, hs, _⟩ := List.map_eq_cons_iff.mp hrest
  have hhere := hsteps
  rw [hsplit, List.forall_mem_append, List.forall_mem_cons] at hhere
  obtain ⟨hformer, ⟨hstep, hproper⟩, _⟩ := hhere
  have hsame : List.Forall₂ (fun t t' => t ∈ before ∧ t'.unplaced = t.unplaced) before before' :=
    (List.forall₂_and_left before before').mpr ⟨fun _ ht => ht, forall₂_of_map_eq hbefore⟩
  have hprefix : List.Forall₂ (Corresponds SameApart) before before' :=
    hsame.imp fun t _ ht => corresponds_of_same (hformer t ht.1).1 ht.2
  have hstart : Progress.Alike Assignment.Same ⟨Graph.start unit, []⟩ ⟨Graph.start unit', []⟩ :=
    ⟨.nil, rfl⟩
  have hbegun :
      (visitAll (Stmt.definedNamesOfAll unit.statements) ⟨Graph.start unit, []⟩ before).Alike
        Assignment.Same
        (visitAll (Stmt.definedNamesOfAll unit.statements) ⟨Graph.start unit', []⟩ before') :=
    visit_all_same hprefix (fun t ht => (hformer t ht).2) hstart
  have hdone : (Progress.after unit (before ++ [s])).Alike (Assignment.Alike ShiftStep)
      (Progress.after unit' (before' ++ [s'])) := by
    rw [after_append, after_append, h.names_eq, Progress.after, Progress.after, h.names_eq]
    exact visit_alike (carries_alike ShiftStep)
      (fun _ _ ha => ha.toAlike.mono fun _ _ hs => .inl hs.symm)
      elementwise_lagged_apart (fun _ _ he => scan_lagged_apart he (some 0)) (.inl rfl)
      (corresponds_of_lagged hstep hs) hproper hbegun
  have hdone' : i < (Progress.after unit' (before' ++ [s'])).graph.assignments.size :=
    hdone.size_eq ▸ hby.done
  rw [recorded_after hsteps hsplit hby.done] at ha
  rw [recorded_after hsteps' hsplit' hdone']
  have hrel := forall₂_getElem? hdone.assignments i
  rw [Array.getElem?_toList, Array.getElem?_toList, ha] at hrel
  generalize (Progress.after unit' (before' ++ [s'])).graph.assignments[i]? = found at hrel
  cases hrel with
  | some hrel => exact ⟨_, rfl, hrel⟩

end BacktestAudit.Flow
