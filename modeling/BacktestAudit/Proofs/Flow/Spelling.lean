import BacktestAudit.Proofs.Flow.Scan
import BacktestAudit.Proofs.Flow.Steps
import BacktestAudit.Proofs.Syntax.Parsed
import Mathlib.Data.List.TakeWhile

/-!
The spellings of a column: by key, as a member, and by rows and key through an indexer. As targets all
of them write the one column. As values they read it, but for a member of a dotted dataset, which
reads what the dataset itself reads.
-/
namespace BacktestAudit.Flow
open BacktestAudit.Syntax BacktestAudit.Source
set_option autoImplicit false

variable {imported : List String}

/-! ## Datasets -/

def firstName? : Expr → Option String
  | .name _ id _ => some id
  | .member _ value _ => firstName? value
  | _ => none

theorem leading_name_dotted (dataset attr : String) :
    leadingName (dataset ++ "." ++ attr) = leadingName dataset := by
  have hlist : (dataset ++ "." ++ attr).toList = dataset.toList ++ '.' :: attr.toList := by
    simp [String.toList_append]
  rw [leadingName, leadingName, hlist, List.takeWhile_append]
  split
  · next hlength =>
    rw [(List.takeWhile_prefix _).eq_of_length hlength]
    simp
  · rfl

theorem leading_name_plain {id : String} (h : '.' ∉ id.toList) : leadingName id = id := by
  have hall : ∀ c ∈ id.toList, decide (c ≠ '.') = true := by
    intro c hc
    exact decide_eq_true fun heq => h (heq ▸ hc)
  rw [leadingName, List.takeWhile_eq_self_iff.mpr hall, String.ofList_toList]

theorem leading_name_of_alias {base : Expr} {dataset : String} (h : alias? base = some dataset) :
    ∃ id, firstName? base = some id ∧ ('.' ∉ id.toList → leadingName dataset = id) := by
  fun_induction alias? base generalizing dataset with
  | case1 x id role =>
    obtain rfl := Option.some.inj h
    exact ⟨id, rfl, leading_name_plain⟩
  | case2 x value attr ih =>
    obtain ⟨inner, hinner, rfl⟩ := Option.map_eq_some_iff.mp h
    obtain ⟨id, hfirst, hleading⟩ := ih hinner
    exact ⟨id, hfirst, fun hid => (leading_name_dotted inner attr).trans (hleading hid)⟩
  | case3 => cases h

/-- An expression that stands for a dataset: a dotted name that begins with no imported name and
ends with no indexer. -/
structure IsDataset (imported : List String) (base : Expr) (dataset : String) : Prop where
  alias_eq : alias? base = some dataset
  first : ∀ id, firstName? base = some id → id ∉ imported ∧ '.' ∉ id.toList
  last : ∀ x value attr, base = .member x value attr → attr ∉ indexers

theorem IsDataset.leading {base : Expr} {dataset : String} (h : IsDataset imported base dataset) :
    leadingName dataset ∉ imported := by
  obtain ⟨id, hfirst, hleading⟩ := leading_name_of_alias h.alias_eq
  obtain ⟨himported, hdot⟩ := h.first id hfirst
  rw [hleading hdot]
  exact himported

/-! ## Spellings -/

/-- A column of a dataset: its key, its member, and its key behind rows in an indexer. -/
inductive Spells (base : Expr) (name : String) : Expr → Prop
  | key (x y : Extent) : Spells base name (.subscript x base (.constant y (.str name)))
  | member (x : Extent) : Spells base name (.member x base name)
  | row (x y z w : Extent) (attr : String) (rows : List Expr) (h : attr ∈ indexers) :
      Spells base name
        (.subscript x (.member y base attr) (.tuple z (rows ++ [.constant w (.str name)])))

variable {base e : Expr} {dataset name : String}

theorem column_of_key (h : IsDataset imported base dataset) (y : Extent) :
    columnOf? imported base (.constant y (.str name)) = some ⟨dataset, name⟩ := by
  refine column_of_eq_some.mpr ⟨base, .constant y (.str name), ?_, rfl, h.alias_eq, h.leading⟩
  unfold columnParts?
  split
  · next x container attr => exact if_neg (h.last x container attr rfl)
  · rfl

theorem column_of_row (h : IsDataset imported base dataset) {attr : String}
    (hattr : attr ∈ indexers) (y z w : Extent) (rows : List Expr) :
    columnOf? imported (.member y base attr) (.tuple z (rows ++ [.constant w (.str name)])) =
      some ⟨dataset, name⟩ := by
  refine column_of_eq_some.mpr ⟨base, .constant w (.str name), ?_, rfl, h.alias_eq, h.leading⟩
  simp [columnParts?, hattr, lastElement?]

theorem target_columns_of_spells (h : IsDataset imported base dataset)
    (hspells : Spells base name e) : targetColumns imported e = [⟨dataset, name⟩] := by
  cases hspells with
  | key x y => rw [targetColumns, column_of_key h y, Option.toList_some]
  | member x => rw [targetColumns, h.alias_eq, Option.map_some, Option.toList_some]
  | row x y z w attr rows hattr =>
    rw [targetColumns, column_of_row h hattr, Option.toList_some]

/-- A spelling that is read as the column: any of them, but a member only of a plain name. -/
def isReadable (base : Expr) : Expr → Bool
  | .member .. => match base with
    | .name .. => true
    | _ => false
  | _ => true

def rowsOf : Expr → List Expr
  | .subscript _ _ (.tuple _ parts) => parts.dropLast
  | _ => []

/-- Such a spelling reads the column, and besides what its rows read. -/
theorem scan_columns_of_spells (h : IsDataset imported base dataset)
    (hname : name ∉ indexers ∧ name ∉ frameMembers) (hspells : Spells base name e)
    (hreadable : isReadable base e = true) (shift : Shift) :
    (scan imported shift e).reads = ⟨⟨dataset, name⟩, shift, e.extent⟩ ::
      (scanAll imported (some 0) (rowsOf e)).reads := by
  cases hspells with
  | key x y =>
    rw [scan_column (column_of_key h y), rows_trace_of_constant]
    rfl
  | member x =>
    cases base with
    | name y id role =>
      obtain rfl : id = dataset := Option.some.inj h.alias_eq
      have himported : id ∉ imported := (h.first id rfl).1
      simp [scan, scanAll, rowsOf, himported, hname.1, hname.2, Trace.read, Expr.extent]
    | _ => cases hreadable
  | row x y z w attr rows hattr =>
    have hindexed : isIndexed (.member y base attr)
        (.tuple z (rows ++ [.constant w (.str name)])) = true := decide_eq_true hattr
    rw [scan_column (column_of_row h hattr y z w rows), rowsTrace, hindexed, rowsOf,
      List.dropLast_concat, ← scan_init_concat rows (.constant w (.str name))]
    rfl

theorem scan_of_unreadable (hspells : Spells base name e) (hreadable : isReadable base e = false)
    (shift : Shift) : scan imported shift e = scan imported shift base := by
  cases hspells with
  | key x y => cases hreadable
  | row x y z w attr rows hattr => cases hreadable
  | member x =>
    refine scan_member_of_ne (fun y id role heq => ?_) shift x name
    subst heq
    cases hreadable

/-! ## Writes that stay the last -/

def writes (imported : List String) : Stmt → List Column
  | .assign _ targets _ => targetColumnsOfAll imported targets
  | .annotate _ target _ (some _) => targetColumnsOfAll imported [target]
  | .augment _ target _ => targetColumns imported target
  | _ => []

variable {column : Column} {place : Lines} {value : Expr}

theorem last_write_stays (column : Column) : Stays (·.lastWrite? column) (· ≠ column) where
  record := by
    intro p c e place reads hc
    rw [last_write_record, if_neg (Ne.symm hc)]
  derive := fun _ _ => rfl

theorem target_columns_of_mem {es : List Expr} (h : e ∈ es) :
    targetColumns imported e ⊆ targetColumnsOfAll imported es := by
  induction es with
  | nil => cases h
  | cons f es ih =>
    rw [targetColumnsOfAll]
    rcases List.mem_cons.mp h with rfl | h
    · exact List.subset_append_left ..
    · exact List.Subset.trans (ih h) (List.subset_append_right ..)

theorem target_columns_of_elements {es : List Expr} (h : elements? e = some es) :
    targetColumns imported e = targetColumnsOfAll imported es := by
  cases e with
  | tuple x fs => rw [targetColumns, Option.some.inj h]
  | list x fs => rw [targetColumns, Option.some.inj h]
  | _ => cases h

theorem target_columns_of_pair {targets : List Expr} {pair : Expr × Part × Expr}
    (h : pair ∈ pairTargets targets value) :
    targetColumns imported pair.1 ⊆ targetColumnsOfAll imported targets := by
  obtain ⟨t, ht, hpair⟩ := List.mem_flatMap.mp h
  refine List.Subset.trans ?_ (target_columns_of_mem ht)
  split at hpair
  · next ts vs hts hvs =>
    split at hpair
    · obtain ⟨i, hi, rfl⟩ := List.mem_iff_getElem.mp hpair
      rw [target_columns_of_elements hts]
      refine target_columns_of_mem ?_
      simp
    · rw [List.mem_singleton.mp hpair]
      exact List.Subset.refl _
  · rw [List.mem_singleton.mp hpair]
    exact List.Subset.refl _

theorem last_write_assign {targets : List Expr}
    (h : column ∉ targetColumnsOfAll imported targets) (p : Progress) :
    (assign imported place targets value p).lastWrite? column = p.lastWrite? column := by
  have hpairs : ∀ pair ∈ pairTargets targets value, ∀ c ∈ targetColumns imported pair.1,
      c ≠ column := by
    rintro pair hpair c hc rfl
    exact h (target_columns_of_pair hpair hc)
  unfold assign
  refine ((last_write_stays column).assign_pairs hpairs place _ _).trans ?_
  rw [absorb_all_eq]
  rfl

theorem last_write_step {s : Stmt} (hstep : s.isStep = true) (h : column ∉ writes imported s)
    (p : Progress) : (visit imported p s).lastWrite? column = p.lastWrite? column := by
  cases s with
  | assign x targets value => exact last_write_assign h p
  | annotate x target typeHint value =>
    cases value with
    | none => rfl
    | some value => exact last_write_assign h p
  | augment x target value =>
    have hcolumns : ∀ c ∈ targetColumns imported target, c ≠ column := by
      rintro c hc rfl
      exact h hc
    exact (last_write_stays column).augment_all hcolumns value x.lines target.extent _ _
  | evaluate x value => rfl
  | imports x kind names => rfl
  | define x kind name signature parts => cases hstep
  | compound x kind parts => cases hstep

theorem last_write_steps {steps : List Stmt}
    (h : ∀ s ∈ steps, s.isStep = true ∧ column ∉ writes imported s) (p : Progress) :
    (visitAll imported p steps).lastWrite? column = p.lastWrite? column := by
  induction steps generalizing p with
  | nil => rfl
  | cons s steps ih =>
    obtain ⟨hs, hsteps⟩ := List.forall_mem_cons.mp h
    rw [visitAll, ih hsteps, last_write_step hs.1 hs.2]

/-! ## Columns written and read -/

/-- An assignment to a spelling of a column is its last write. -/
theorem last_write_of_spelled {target : Expr} (h : IsDataset imported base dataset)
    (hspells : Spells base name target) (value : Expr) (p : Progress) :
    (assign imported place [target] value p).lastWrite? ⟨dataset, name⟩ =
      some p.graph.assignments.size := by
  have helements : elements? target = none := by
    cases hspells <;> rfl
  have hpairs : pairTargets [target] value = [(target, .whole, value)] := by
    simp [pairTargets, helements]
  have hpair : ∀ (readsOf : List (Part × List Read)) (q : Progress),
      (assignPair imported place readsOf q (target, .whole, value)).lastWrite? ⟨dataset, name⟩ =
        some q.graph.assignments.size := by
    intro readsOf q
    simp only [assignPair, target_columns_of_spells h hspells, List.foldl_cons, List.foldl_nil]
    have hlast := last_write_record q ⟨dataset, name⟩ ⟨dataset, name⟩ value place
      ((readsOf.lookup .whole).getD [])
    exact hlast.trans (if_pos rfl)
  unfold assign
  rw [hpairs, List.foldl_cons, List.foldl_nil, hpair, absorb_all_eq]
  rfl

/-- The spellings of a column write and read the one column, so that what is assigned through one of
them and read through another comes from that assignment, as long as no step in between writes the
column. Only a member of a dotted dataset is not read as the column: it reads what the dataset
reads. -/
theorem spellings_agree (imported : List String) {base : Expr} {dataset name : String}
    (h : IsDataset imported base dataset) (hname : name ∉ indexers ∧ name ∉ frameMembers) :
    (∀ target, Spells base name target →
      targetColumns imported target = [⟨dataset, name⟩]) ∧
      (∀ e, Spells base name e → isReadable base e = true → ∀ shift,
        (scan imported shift e).reads = ⟨⟨dataset, name⟩, shift, e.extent⟩ ::
          (scanAll imported (some 0) (rowsOf e)).reads) ∧
      (∀ e, Spells base name e → isReadable base e = false → ∀ shift,
        scan imported shift e = scan imported shift base) ∧
      ∀ target e, Spells base name target → Spells base name e → isReadable base e = true →
        ∀ (p : Progress) (place : Lines) (value : Expr) (steps : List Stmt) (shift : Shift),
          (∀ s ∈ steps, s.isStep = true ∧ ⟨dataset, name⟩ ∉ writes imported s) →
            let q := visitAll imported (assign imported place [target] value p) steps
            ∃ r rest, (scan imported shift e).reads.map q.resolve = r :: rest ∧
              r.column = ⟨dataset, name⟩ ∧ r.source = some p.graph.assignments.size := by
  refine ⟨fun target => target_columns_of_spells h,
    fun e hspells hreadable => scan_columns_of_spells h hname hspells hreadable,
    fun e hspells hreadable => scan_of_unreadable hspells hreadable, ?_⟩
  intro target e htarget hspells hreadable p place value steps shift hsteps q
  have hreads := scan_columns_of_spells h hname hspells hreadable shift
  refine ⟨_, _, by rw [hreads, List.map_cons], rfl, ?_⟩
  have hlast : q.lastWrite? ⟨dataset, name⟩ = some p.graph.assignments.size := by
    rw [last_write_steps hsteps, last_write_of_spelled h htarget]
  exact hlast

/-- A frame, its column as a member, and the column behind a row. -/
def frame : Expr := .name ⟨0, 2, 1, 1⟩ "df" .read

def frameMember : Expr := .member ⟨0, 6, 1, 1⟩ frame "sig"

def frameRow : Expr :=
  .subscript ⟨0, 18, 3, 3⟩ (.member ⟨0, 6, 3, 3⟩ frame "loc")
    (.tuple ⟨7, 17, 3, 3⟩ [.name ⟨7, 10, 3, 3⟩ "row" .read, .constant ⟨12, 17, 3, 3⟩ (.str "sig")])

/-- A statement between the two writes another column of the frame. -/
def frameOther : Stmt := .assign ⟨0, 11, 2, 2⟩ [.member ⟨0, 6, 2, 2⟩ frame "raw"] frame

theorem spellings_of_frame_agree :
    IsDataset [] frame "df" ∧ targetColumns [] frameMember = [⟨"df", "sig"⟩] ∧
      ∃ r rest, (scan [] (some 0) frameRow).reads.map
          (visitAll [] (assign [] ⟨1, 1⟩ [frameMember] frame
            ⟨Graph.start ⟨"", "unit", []⟩, []⟩) [frameOther]).resolve = r :: rest ∧
        r.column = ⟨"df", "sig"⟩ ∧ r.source = some 0 := by
  have hframe : IsDataset [] frame "df" :=
    ⟨rfl, fun id hid => ⟨nofun, Option.some.inj hid ▸ by decide⟩, nofun⟩
  have htarget : Spells frame "sig" frameMember := .member _
  have hrow : Spells frame "sig" frameRow := .row _ _ _ _ "loc" [_] (by decide)
  obtain ⟨htargets, _, _, hread⟩ := spellings_agree [] hframe
    (by decide : "sig" ∉ indexers ∧ "sig" ∉ frameMembers)
  refine ⟨hframe, htargets _ htarget, ?_⟩
  exact hread frameMember frameRow htarget hrow rfl _ ⟨1, 1⟩ frame [frameOther] (some 0) (by decide)

/-- A member of a dotted dataset is assigned and read. -/
def dottedText : String := "self.df.sig = raw\npos = self.df.sig\n"

/-- The read does not come from the assignment: it is of another column, and from outside. -/
theorem dotted_member_reads_otherwise :
    ∃ unit, SourceUnit.parse dottedText "dotted" = .ok unit ∧
      ((Graph.ofUnit unit).assignments.toList.map fun a =>
        (a.target, a.reads.map fun r => (r.column, r.source))) =
        [(⟨"self.df", "sig"⟩, [(⟨"", "raw"⟩, none)]), (⟨"", "pos"⟩, [(⟨"self", "df"⟩, none)])] := by
  have hfacts : SourceUnit.parsesTo dottedText "dotted" (fun unit => decide
      (((Graph.ofUnit unit).assignments.toList.map fun a =>
        (a.target, a.reads.map fun r => (r.column, r.source))) =
        [(⟨"self.df", "sig"⟩, [(⟨"", "raw"⟩, none)]),
          (⟨"", "pos"⟩, [(⟨"self", "df"⟩, none)])])) = true := by
    decide +kernel
  obtain ⟨unit, hparse, hunit⟩ := SourceUnit.parses_to_iff.mp hfacts
  exact ⟨unit, hparse, of_decide_eq_true hunit⟩

end BacktestAudit.Flow
