import BacktestAudit.Proofs.Flow.LastWrite
import BacktestAudit.Proofs.Flow.ReadNames

/-!
Imported and defined names. They stand for no data, and every form of read leaves them out but one, a
list of keys; besides, an augmented assignment reads what it writes, whatever name it goes by.
-/
namespace BacktestAudit.Flow
open BacktestAudit.Syntax BacktestAudit.Source
set_option autoImplicit false

variable {imported : List String}

/-! ## What an assignment reads -/

/-- Where a step reads a column: in what it is evaluated from, and at the target of an augmented
assignment. -/
inductive ReadBy (imported : List String) : Stmt → Column → Extent → Prop
  | value {s : Stmt} {c : Column} {x : Extent} :
      Somewhere (values s) (fun d => ReadAs imported d c x) → ReadBy imported s c x
  | target {x : Extent} {target value : Expr} {c : Column} : c ∈ targetColumns imported target →
      ReadBy imported (.augment x target value) c target.extent

theorem assign_reads (place : Lines) (targets : List Expr) (value : Expr) (p : Progress) :
    p.AddsReads (fun reads => ∀ r ∈ reads, Somewhere [value] fun d =>
      ReadAs imported d r.column r.extent) (assign imported place targets value p) := by
  refine .assign nofun fun part hpart r hr => ?_
  obtain ⟨o, ho, rfl⟩ := List.mem_map.mp hr
  refine ((scan_stems (some 0) part.2).reads o ho).widen ?_
  exact List.forall_mem_singleton.mpr (parts_stand part.2 (List.mem_map_of_mem hpart))

theorem augment_reads (x : Extent) (target value : Expr) (p : Progress) :
    p.AddsReads
      (fun reads => ∀ r ∈ reads, ReadBy imported (.augment x target value) r.column r.extent)
      (augment imported x.lines target value p) := by
  refine .augment ?_ ?_
  · intro p c reads hc hreads
    exact List.forall_mem_append.mpr ⟨hreads, List.forall_mem_singleton.mpr (.target hc)⟩
  · intro r hr
    obtain ⟨o, ho, rfl⟩ := List.mem_map.mp hr
    exact .value ((scan_stems (some 0) value).reads o ho)

theorem step_reads {s : Stmt} (hstep : s.isStep = true) (p : Progress) :
    p.AddsReads (fun reads => ∀ r ∈ reads, ReadBy imported s r.column r.extent)
      (visit imported p s) := by
  cases s with
  | assign x targets value =>
    exact (assign_reads x.lines targets value p).mono fun _ h r hr => .value (h r hr)
  | annotate x target typeHint value =>
    cases value with
    | none => exact .refl
    | some value =>
      exact (assign_reads x.lines [target] value p).mono fun _ h r hr => .value (h r hr)
  | augment x target value => exact augment_reads x target value p
  | evaluate x value => exact .absorb
  | imports x kind names => exact .refl
  | define x kind name signature parts => nomatch hstep
  | compound x kind parts => nomatch hstep

theorem steps_read {steps : List Stmt} (hsteps : ∀ s ∈ steps, s.isStep = true) (p : Progress) :
    p.AddsReads (fun reads => ∃ s ∈ steps, ∀ r ∈ reads, ReadBy imported s r.column r.extent)
      (visitAll imported p steps) := by
  induction steps generalizing p with
  | nil => exact .refl
  | cons s steps ih =>
    obtain ⟨hstep, hsteps⟩ := List.forall_mem_cons.mp hsteps
    refine ((step_reads hstep p).mono fun reads hreads => ?_).trans
      ((ih hsteps _).mono fun reads hreads => ?_)
    · exact ⟨s, List.mem_cons_self .., hreads⟩
    · obtain ⟨t, ht, hreads⟩ := hreads
      exact ⟨t, List.mem_cons_of_mem s ht, hreads⟩

/-- Every assignment of a unit reads what one of its steps does. -/
theorem unit_reads (unit : SourceUnit) {a : Assignment}
    (ha : a ∈ (Graph.ofUnit unit).assignments.toList) :
    ∃ s ∈ Stmt.stepsOfAll unit.statements, ∀ r ∈ a.reads,
      ReadBy (Stmt.definedNamesOfAll unit.statements) s r.column r.extent := by
  let imported := Stmt.definedNamesOfAll unit.statements
  have hadds : Progress.AddsReads (fun reads => ∃ s ∈ Stmt.stepsOfAll unit.statements,
      ∀ r ∈ reads, ReadBy imported s r.column r.extent) ⟨Graph.start unit, []⟩
      (visitAll imported ⟨Graph.start unit, []⟩ (Stmt.stepsOfAll unit.statements)) :=
    steps_read (Stmt.is_step_of_mem_steps_of_all unit.statements) _
  obtain ⟨added, heq, hadded⟩ := hadds
  rw [graph_of_steps] at ha
  have hall : (Progress.after unit (Stmt.stepsOfAll unit.statements)).graph.assignments.toList =
      added := heq
  exact hadded a (hall ▸ ha)

/-! ## Reads of imported names -/

/-- A list of keys of an imported name that names a column. -/
def KeysImport (imported : List String) (d : Expr) (c : Column) : Prop :=
  ∃ x y id role index columns, d = .subscript x (.name y id role) index ∧ id ∈ imported ∧
    keyColumns? (.name y id role) index = some columns ∧ c ∈ columns.map (·.1)

/-- An augmented assignment to an imported name or to a member of one, with its column and the place
of the target. -/
inductive AugmentsImport (imported : List String) : Stmt → Column → Extent → Prop
  | name {x y : Extent} {id : String} {role : NameRole} {value : Expr} : id ∈ imported →
      AugmentsImport imported (.augment x (.name y id role) value) (.ofVariable id) y
  | member {x y : Extent} {v value : Expr} {dataset attr : String} : alias? v = some dataset →
      leadingName dataset ∈ imported →
      AugmentsImport imported (.augment x (.member y v attr) value) ⟨dataset, attr⟩ y

theorem ReadAs.keys_import {d : Expr} {c : Column} {x : Extent} (h : ReadAs imported d c x)
    (hw : d.Worded) (hc : c.leading ∈ imported) : KeysImport imported d c := by
  cases h with
  | bare hid =>
    rw [leading_of_variable hw.name.2] at hc
    exact absurd hc hid
  | frame hbase =>
    rw [leading_of_variable (hw.child (List.mem_singleton_self _)).name.2] at hc
    exact absurd hc hbase
  | member hbase =>
    rw [leading_of_member (hw.child (List.mem_singleton_self _)).name] at hc
    exact absurd hc hbase
  | column hcolumn =>
    obtain ⟨_, _, _, hnew, _⟩ := column_begins hcolumn (hw.child (List.mem_cons_self ..))
    exact absurd hc hnew
  | @key z _ value index columns _ hkeys hmem =>
    obtain ⟨y, id, role, rfl, _, hdataset⟩ := key_columns_begin hkeys
    obtain ⟨dataset, name⟩ := c
    obtain rfl : dataset = id := hdataset _ hmem
    rw [leading_of_member (hw.child (List.mem_cons_self ..)).name] at hc
    exact ⟨z, y, dataset, role, index, columns, rfl, hc, hkeys, List.mem_map_of_mem hmem⟩

/-- Of the targets of augmented assignments, only a subscript leaves imported names out. -/
theorem augments_import {x : Extent} {target value : Expr} {c : Column}
    (hsingle : target.isSingleTarget = true) (hw : target.Worded)
    (hmem : c ∈ targetColumns imported target) (hc : c.leading ∈ imported) :
    AugmentsImport imported (.augment x target value) c target.extent := by
  cases target with
  | name y id role =>
    obtain rfl := List.mem_singleton.mp hmem
    rw [leading_of_variable hw.name.2] at hc
    exact .name hc
  | member y v attr =>
    obtain ⟨dataset, halias, rfl⟩ := Option.map_eq_some_iff.mp (Option.mem_toList.mp hmem)
    obtain ⟨_, _, _, hne, _⟩ := alias_begins halias (hw.child (List.mem_singleton_self v))
    rw [leading_of_dataset hne] at hc
    exact .member halias hc
  | subscript y v index =>
    obtain ⟨_, _, _, hnew, _⟩ := column_begins (Option.mem_toList.mp hmem)
      (hw.child (List.mem_cons_self ..))
    exact absurd hc hnew
  | _ => nomatch hsingle

theorem values_subset (s : Stmt) : values s ⊆ s.expressions := by
  cases s with
  | assign x targets value =>
    rw [Stmt.expressions]
    exact List.subset_append_right ..
  | annotate x target typeHint value =>
    rw [Stmt.expressions]
    exact List.subset_append_right [target, typeHint] value.toList
  | augment x target value =>
    rw [Stmt.expressions]
    exact List.subset_cons_self ..
  | evaluate x value =>
    rw [Stmt.expressions]
    exact List.Subset.refl _
  | imports | define | compound => exact List.nil_subset _

section
variable {text name : String} {unit : SourceUnit} {s : Stmt} {c : Column} {x : Extent}

theorem step_worded (h : SourceUnit.parse text name = .ok unit)
    (hs : s ∈ Stmt.stepsOfAll unit.statements) : ∀ e ∈ s.expressions, e.Worded :=
  fun e he => SourceUnit.expressions_worded h e (expressions_of_steps _ s hs he)

/-- A column of an imported name that is read in a program is one of a list of keys. -/
theorem somewhere_keys_import (h : SourceUnit.parse text name = .ok unit)
    (hs : s ∈ Stmt.stepsOfAll unit.statements)
    (hread : Somewhere (values s) fun d => ∃ x, ReadAs imported d c x) (hc : c.leading ∈ imported) :
    Somewhere (values s) fun d => KeysImport imported d c := by
  obtain ⟨v, hv, d, hd, x, hread⟩ := hread
  have hw := (step_worded h hs v (values_subset s hv)).of_occurs hd
  exact ⟨v, hv, d, hd, hread.keys_import hw hc⟩

end

/-- No column of an imported or defined name is read, by an assignment or as the receiver or an
argument of a call, but in two ways: through a list of keys of the name itself, and at the target of
an augmented assignment that is the name or a member of it. -/
theorem imported_names_read {text name : String} {unit : SourceUnit}
    (h : SourceUnit.parse text name = .ok unit) :
    let g := Graph.ofUnit unit
    let imported := Stmt.definedNamesOfAll unit.statements
    (∀ a ∈ g.assignments.toList, ∀ r ∈ a.reads, r.column.leading ∈ imported →
        ∃ s ∈ Stmt.stepsOfAll unit.statements,
          (Somewhere (values s) fun d => KeysImport imported d r.column) ∨
            AugmentsImport imported s r.column r.extent) ∧
      ∀ site ∈ g.calls, ∀ c ∈ site.receiverReads ++ site.argReads, c.leading ∈ imported →
        ∃ s ∈ Stmt.stepsOfAll unit.statements,
          Somewhere (values s) fun d => KeysImport imported d c := by
  intro g imported
  constructor
  · intro a ha r hr hc
    obtain ⟨s, hs, hreads⟩ := unit_reads unit ha
    have hby := hreads r hr
    generalize r.column = column, r.extent = extent at hby hc ⊢
    refine ⟨s, hs, ?_⟩
    cases hby with
    | value hread =>
      exact .inl (somewhere_keys_import h hs (hread.imp fun d hd => ⟨_, hd⟩) hc)
    | @target x target value _ hmem =>
      have hw := step_worded h hs target (List.mem_cons_self ..)
      exact .inr (augments_import (steps_of_parse h _ hs).2 hw hmem hc)
  · intro site hsite c hmem hc
    have hsteps := Stmt.is_step_of_mem_steps_of_all unit.statements
    have hcalls : site ∈ (Progress.after unit (Stmt.stepsOfAll unit.statements)).graph.calls := by
      rw [← graph_of_steps]
      exact hsite
    obtain ⟨before, s, after, hsplit, htaken⟩ := calls_gathered.added hsteps hcalls
    obtain ⟨_, _, hstems⟩ := taken_stems _ s
    have hs : s ∈ Stmt.stepsOfAll unit.statements := by
      rw [hsplit]
      exact List.mem_append_right before (List.mem_cons_self ..)
    exact ⟨s, hs, somewhere_keys_import h hs ((hstems.calls site htaken).2.2 c hmem) hc⟩

/-- An imported name that is augmented. -/
def augmentedImportText : String := "import n\nn += 1\n"

theorem augmented_import_read :
    ∃ unit, SourceUnit.parse augmentedImportText "augmented" = .ok unit ∧
      ∃ a ∈ (Graph.ofUnit unit).assignments.toList, ∃ r ∈ a.reads,
        r.column.leading ∈ Stmt.definedNamesOfAll unit.statements ∧
        ∃ s ∈ Stmt.stepsOfAll unit.statements,
          (Somewhere (values s) fun d =>
              KeysImport (Stmt.definedNamesOfAll unit.statements) d r.column) ∨
            AugmentsImport (Stmt.definedNamesOfAll unit.statements) s r.column r.extent := by
  have hfacts : SourceUnit.parsesTo augmentedImportText "augmented" (fun unit =>
      (Graph.ofUnit unit).assignments.toList.any fun a => a.reads.any fun r =>
        decide (r.column.leading ∈ Stmt.definedNamesOfAll unit.statements)) = true := by
    decide +kernel
  obtain ⟨unit, hparse, hunit⟩ := SourceUnit.parses_to_iff.mp hfacts
  obtain ⟨a, ha, hreads⟩ := List.any_eq_true.mp hunit
  obtain ⟨r, hr, himported⟩ := List.any_eq_true.mp hreads
  have himported := of_decide_eq_true himported
  have hfrom := (imported_names_read hparse).1 a ha r hr himported
  exact ⟨unit, hparse, a, ha, r, hr, himported, hfrom⟩

/-- A list of keys of an imported name. -/
def keyedImportText : String := "import np\nx = np[[\"a\"]]\n"

/-- A column of the import is read. -/
theorem keyed_import_read :
    ∃ unit, SourceUnit.parse keyedImportText "keyed" = .ok unit ∧
      "np" ∈ Stmt.definedNamesOfAll unit.statements ∧
      ∃ a ∈ (Graph.ofUnit unit).assignments.toList, ∃ r ∈ a.reads, r.column = ⟨"np", "a"⟩ ∧
        r.column.leading = "np" := by
  have hfacts : SourceUnit.parsesTo keyedImportText "keyed" (fun unit =>
      decide ("np" ∈ Stmt.definedNamesOfAll unit.statements) &&
        (Graph.ofUnit unit).assignments.toList.any fun a => a.reads.any fun r =>
          decide (r.column = ⟨"np", "a"⟩)) = true := by
    decide +kernel
  obtain ⟨unit, hparse, hunit⟩ := SourceUnit.parses_to_iff.mp hfacts
  obtain ⟨himported, hunit⟩ := Bool.and_eq_true_iff.mp hunit
  obtain ⟨a, ha, hreads⟩ := List.any_eq_true.mp hunit
  obtain ⟨r, hr, hcolumn⟩ := List.any_eq_true.mp hreads
  have hcolumn := of_decide_eq_true hcolumn
  refine ⟨unit, hparse, of_decide_eq_true himported, a, ha, r, hr, hcolumn, ?_⟩
  rw [hcolumn]
  decide

end BacktestAudit.Flow
