import BacktestAudit.Proofs.Flow.Origins
import BacktestAudit.Proofs.Flow.Spelling
import BacktestAudit.Proofs.Syntax.Words

/-!
Names and reads. Whatever form a name stands in, a scan reads a column that goes by it: itself, a
member of it, or a column of the dataset that it begins. So no name in an expression is lost, and
nothing is read that does not begin with a name of the expression.
-/
namespace BacktestAudit.Flow
open BacktestAudit.Syntax BacktestAudit.Source
set_option autoImplicit false

variable {imported : List String}

/-! ## The name that a column goes by -/

/-- The first part of the dotted name of a column's dataset. -/
def Column.leading (c : Column) : String := leadingName c.frame

theorem leading_of_variable {id : String} (h : '.' ∉ id.toList) :
    (Column.ofVariable id).leading = id :=
  leading_name_plain h

theorem leading_of_dataset {dataset name : String} (h : leadingName dataset ≠ "") :
    (Column.mk dataset name).leading = leadingName dataset := by
  have hempty : ¬ dataset.isEmpty = true := by
    intro hempty
    rw [String.isEmpty_iff.mp hempty] at h
    exact h rfl
  rw [Column.leading, Column.frame, if_neg hempty]

theorem leading_of_member {base attr : String} (h : base ≠ "" ∧ '.' ∉ base.toList) :
    (Column.mk base attr).leading = base := by
  have hplain := leading_name_plain h.2
  rw [leading_of_dataset (by rw [hplain]; exact h.1), hplain]

theorem alias_begins {e : Expr} {dataset : String} (h : alias? e = some dataset) (hw : e.Worded) :
    ∃ x role, (Expr.name x (leadingName dataset) role).Occurs e ∧ leadingName dataset ≠ "" ∧
      e.loads = (Expr.name x (leadingName dataset) role).loads := by
  cases e with
  | name x id role =>
    obtain rfl := Option.some.inj h
    rw [leading_name_plain hw.name.2]
    exact ⟨x, role, .here, hw.name.1, rfl⟩
  | member x value attr =>
    have hvalue := List.mem_singleton_self value
    obtain ⟨inner, hinner, rfl⟩ := Option.map_eq_some_iff.mp h
    obtain ⟨y, role, hname, hne, hloads⟩ := alias_begins hinner (hw.child hvalue)
    rw [leading_name_dotted, Expr.loads]
    exact ⟨y, role, .inside hvalue hname, hne, hloads⟩
  | _ => nomatch h

/-- The column of a subscript goes by a name of what the subscript is of. -/
theorem column_begins {value index : Expr} {c : Column}
    (h : columnOf? imported value index = some c) (hw : value.Worded) :
    ∃ x role, (Expr.name x c.leading role).Occurs value ∧ c.leading ∉ imported ∧
      value.loads = (Expr.name x c.leading role).loads := by
  obtain ⟨container, key, hparts, _, halias, himported⟩ := column_of_eq_some.mp h
  have hcontainer : container.Occurs value ∧ value.loads = container.loads := by
    unfold columnParts? at hparts
    split at hparts
    · next x inner attr =>
      split at hparts
      · obtain ⟨last, _, heq⟩ := Option.map_eq_some_iff.mp hparts
        obtain ⟨rfl, _⟩ := Prod.mk.inj heq
        exact ⟨.inside (List.mem_singleton_self inner) .here, by rw [Expr.loads]⟩
      · obtain ⟨rfl, _⟩ := Prod.mk.inj (Option.some.inj hparts)
        exact ⟨.here, rfl⟩
    · obtain ⟨rfl, _⟩ := Prod.mk.inj (Option.some.inj hparts)
      exact ⟨.here, rfl⟩
  obtain ⟨x, role, hname, hne, hloads⟩ := alias_begins halias (hw.of_occurs hcontainer.1)
  obtain ⟨dataset, name⟩ := c
  rw [leading_of_dataset hne]
  exact ⟨x, role, hname.trans hcontainer.1, himported, hcontainer.2.trans hloads⟩

theorem key_columns_begin {value index : Expr} {columns : List (Column × Extent)}
    (h : keyColumns? value index = some columns) :
    ∃ x id role, value = .name x id role ∧ columns ≠ [] ∧ ∀ c ∈ columns, c.1.dataset = id := by
  obtain ⟨x, id, role, keys, rfl, _, hne, hnames⟩ := key_columns_eq_some h
  refine ⟨x, id, role, rfl, fun hnil => hne ?_, ?_⟩
  · rw [hnil] at hnames
    exact List.forall₂_nil_right_iff.mp hnames
  · intro c hc
    have hdatasets : columns.map (·.1.dataset) = keys.map fun _ => id :=
      map_eq_of_forall₂ hnames fun k c hname => congrArg (·.1.dataset) hname.choose_spec.2
    have hdataset := List.mem_map_of_mem (f := (·.1.dataset)) hc
    rw [hdatasets] at hdataset
    obtain ⟨k, _, hid⟩ := List.mem_map.mp hdataset
    exact hid.symm

theorem ReadAs.begins {d : Expr} {c : Column} {x : Extent} (h : ReadAs imported d c x)
    (hw : d.Worded) : ∃ y role, (Expr.name y c.leading role).Occurs d := by
  cases h with
  | @bare _ id _ =>
    rw [leading_of_variable hw.name.2]
    exact ⟨x, .read, .here⟩
  | @frame y _ base attr role _ =>
    have hbase : Expr.name x base role ∈ (Expr.member y (.name x base role) attr).children :=
      List.mem_singleton_self _
    rw [leading_of_variable (hw.child hbase).name.2]
    exact ⟨x, role, .inside hbase .here⟩
  | @member _ y base attr role _ =>
    have hbase : Expr.name y base role ∈ (Expr.member x (.name y base role) attr).children :=
      List.mem_singleton_self _
    rw [leading_of_member (hw.child hbase).name]
    exact ⟨y, role, .inside hbase .here⟩
  | @column _ value index _ hc =>
    have hvalue : value ∈ (Expr.subscript x value index).children := List.mem_cons_self ..
    obtain ⟨y, role, hname, _, _⟩ := column_begins hc (hw.child hvalue)
    exact ⟨y, role, .inside hvalue hname⟩
  | @key z _ value index columns _ hk hmem =>
    obtain ⟨y, id, role, rfl, _, hdataset⟩ := key_columns_begin hk
    have hvalue : Expr.name y id role ∈ (Expr.subscript z (.name y id role) index).children :=
      List.mem_cons_self ..
    obtain ⟨dataset, name⟩ := c
    obtain rfl : dataset = id := hdataset _ hmem
    rw [leading_of_member (hw.child hvalue).name]
    exact ⟨y, role, .inside hvalue .here⟩

/-! ## Names that are read -/

/-- The names that the columns of reads go by, in order. -/
def Trace.leadings (t : Trace) : List String := t.reads.map (·.column.leading)

/-- Whether several names, imported ones apart, are among those read, each as often and in order. -/
def Trace.Covers (imported : List String) (t : Trace) (names : List String) : Prop :=
  (names.filter (· ∉ imported)).Sublist t.leadings

namespace Trace.Covers

variable {t t' : Trace} {names names' : List String}

theorem nothing : t.Covers imported [] := List.nil_sublist _

theorem append (h : t.Covers imported names) (h' : t'.Covers imported names') :
    (t ++ t').Covers imported (names ++ names') := by
  have hleadings : (t ++ t').leadings = t.leadings ++ t'.leadings := List.map_append
  rw [Covers, List.filter_append, hleadings]
  exact List.Sublist.append h h'

theorem of_name {x : Extent} {id : String} {role : NameRole} (h : id ∉ imported → id ∈ t.leadings) :
    t.Covers imported (Expr.name x id role).loads := by
  rw [Expr.loads]
  split
  · by_cases hid : id ∈ imported
    · rw [Covers, List.filter_cons_of_neg (by simpa using hid)]
      exact List.nil_sublist _
    · rw [Covers, List.filter_cons_of_pos (by simpa using hid)]
      exact List.singleton_sublist.mpr (h hid)
  · exact nothing

theorem of_read {x y : Extent} {id : String} {role : NameRole} {c : Column} {shift : Shift}
    (h : c.leading = id) : (Trace.read c shift y).Covers imported (Expr.name x id role).loads :=
  of_name fun _ => h ▸ List.mem_singleton_self _

theorem call {sites : List CallSite} {leaves : Bool} (h : t.Covers imported names) :
    (t ++ { Trace.empty with calls := sites, leavesRange := leaves }).Covers imported names := by
  have hreads : (t ++ { Trace.empty with calls := sites, leavesRange := leaves }).reads = t.reads :=
    List.append_nil _
  rw [Covers, leadings, hreads]
  exact h

end Trace.Covers

theorem loads_of_text {e : Expr} {text : String} (h : e.textConstant? = some text) :
    e.loads = [] := by
  cases e with
  | constant x value => rfl
  | _ => nomatch h

theorem loads_of_keys {d : String} {keys : List Expr} {columns : List (Column × Extent)}
    (h : List.Forall₂ (Names d) keys columns) : Expr.loadsOfAll keys = [] := by
  induction h with
  | nil => rfl
  | cons hname _ ih => rw [Expr.loadsOfAll, loads_of_text hname.choose_spec.1, ih]; rfl

theorem loads_of_init {es : List Expr} {key : Expr} (h : es.getLast? = some key)
    (hkey : key.loads = []) : Expr.loadsOfAll es = Expr.loadsOfAll es.dropLast := by
  obtain ⟨init, rfl⟩ := List.getLast?_eq_some_iff.mp h
  rw [List.dropLast_concat, Expr.loads_of_all_append, Expr.loadsOfAll, hkey, Expr.loadsOfAll,
    List.append_nil, List.append_nil]

theorem scan_name_covers (shift : Shift) {x : Extent} {id : String} {role : NameRole}
    (hw : (Expr.name x id role).Worded) :
    (scan imported shift (.name x id role)).Covers imported (Expr.name x id role).loads := by
  cases role with
  | bind => exact .nothing
  | read =>
    rw [scan]
    split
    · exact .of_read (leading_of_variable hw.name.2)
    · next h => exact .of_name fun hid => absurd ⟨rfl, hid⟩ h

/-- The rows that a column is chosen with cover the names in the subscript; the key has none. -/
theorem rows_cover {value index : Expr} {c : Column} (h : columnOf? imported value index = some c)
    (hrows : ∀ x parts, index = .tuple x parts →
      (scanInit imported parts).Covers imported (Expr.loadsOfAll parts.dropLast)) :
    (rowsTrace imported value index).Covers imported index.loads := by
  obtain ⟨container, key, hparts, htext, _, _⟩ := column_of_eq_some.mp h
  have hkey := loads_of_text htext
  have hwhole : key = index → (rowsTrace imported value index).Covers imported index.loads := by
    rintro rfl
    rw [hkey]
    exact .nothing
  unfold columnParts? at hparts
  split at hparts
  · next x inner attr =>
    split at hparts
    · next hattr =>
      obtain ⟨last, hlast, heq⟩ := Option.map_eq_some_iff.mp hparts
      obtain ⟨rfl, rfl⟩ := Prod.mk.inj heq
      cases index with
      | tuple y parts =>
        rw [Expr.loads, loads_of_init hlast hkey]
        simpa [rowsTrace, isIndexed, hattr] using hrows y parts rfl
      | _ => cases hlast
    · exact hwhole (Prod.mk.inj (Option.some.inj hparts)).2.symm
  · exact hwhole (Prod.mk.inj (Option.some.inj hparts)).2.symm

theorem keys_cover {value index : Expr} {columns : List (Column × Extent)} (shift : Shift)
    (h : keyColumns? value index = some columns) (hw : value.Worded) :
    ({ Trace.empty with reads := columns.map fun (c, y) => ⟨c, shift, y⟩ } : Trace).Covers imported
      (value.loads ++ index.loads) := by
  obtain ⟨_, _, _, keys, _, helements, _, hnames⟩ := key_columns_eq_some h
  have hindex : index.loads = [] := by
    have hkeys := loads_of_keys hnames
    cases index with
    | tuple y es | list y es =>
      obtain rfl := Option.some.inj helements
      exact hkeys
    | _ => cases helements
  obtain ⟨x, id, role, rfl, hne, hdataset⟩ := key_columns_begin h
  obtain ⟨⟨⟨dataset, name⟩, y⟩, rest, rfl⟩ := List.exists_cons_of_ne_nil hne
  obtain rfl : dataset = id := hdataset _ (List.mem_cons_self ..)
  rw [hindex, List.append_nil]
  refine .of_name fun _ => ?_
  rw [Trace.leadings, List.map_cons, List.map_cons, leading_of_member hw.name]
  exact List.mem_cons_self ..

theorem receiver_covers {s : Shift} {func : Expr} (hw : func.Worded)
    (h : (scan imported s func).Covers imported func.loads) :
    (receiverTrace imported s func).Covers imported func.calleeLoads := by
  cases func with
  | name x id role => exact .nothing
  | member x value attr =>
    by_cases hname : ∃ y base role, value = .name y base role
    · obtain ⟨y, base, role, rfl⟩ := hname
      exact scan_name_covers s (hw.child (List.mem_singleton_self _))
    · rwa [scan_member_of_ne fun y id role h => hname ⟨y, id, role, h⟩] at h
  | _ => exact h

mutual

/-- A scan reads under every name in an expression that is not imported. -/
theorem scan_covers (shift : Shift) (e : Expr) (hw : e.Worded) :
    (scan imported shift e).Covers imported e.loads := by
  cases e with
  | name x id role => exact scan_name_covers shift hw
  | constant x v => exact .nothing
  | member x value attr =>
    have hvalue := hw.child (List.mem_singleton_self value)
    by_cases hname : ∃ y base role, value = .name y base role
    · obtain ⟨y, base, role, rfl⟩ := hname
      rw [scan, Expr.loads]
      split
      · next hbase => exact .of_name fun hnew => absurd hbase hnew
      · split
        · exact .of_read (leading_of_variable hvalue.name.2)
        · exact .of_read (leading_of_member hvalue.name)
    · rw [scan_member_of_ne fun y id role h => hname ⟨y, id, role, h⟩, Expr.loads]
      exact scan_covers shift value hvalue
  | subscript x value index =>
    have hvalue : value.Worded := hw.child (List.mem_cons_self ..)
    have hindex : index.Worded := hw.child (List.mem_cons_of_mem value (List.mem_singleton_self _))
    have hahead : ∀ {t : Trace} {names : List String}, t.Covers imported names →
        (forwardTrace x index ++ t).Covers imported names := fun h => .append .nothing h
    rw [Expr.loads]
    cases hc : columnOf? imported value index with
    | some c =>
      obtain ⟨y, role, _, _, hloads⟩ := column_begins hc hvalue
      rw [scan_column hc, hloads]
      refine hahead ((Trace.Covers.of_read rfl).append (rows_cover hc fun z parts hparts => ?_))
      subst hparts
      exact scan_init_covers parts fun e he => hindex.child he
    | none =>
      cases hk : keyColumns? value index with
      | some columns =>
        rw [scan_keys hc hk]
        exact hahead (keys_cover shift hk hvalue)
      | none =>
        rw [scan_parts hc hk]
        exact hahead ((scan_covers shift value hvalue).append (scan_covers (some 0) index hindex))
  | call x func arguments =>
    have hfunc : func.Worded := hw.child (List.mem_cons_self ..)
    have harguments : ∀ a ∈ arguments, a.Worded := fun a ha =>
      hw.child (List.mem_cons_of_mem func ha)
    rw [scan_call, Expr.loads_call]
    exact ((receiver_covers hfunc (scan_covers _ func hfunc)).append
      (scan_all_covers _ arguments harguments)).call
  | keyword x name value | starred x value | unary x op value =>
    rw [scan, Expr.loads]
    exact scan_covers shift value (hw.child (List.mem_singleton_self _))
  | binary x op l r =>
    rw [scan, Expr.loads]
    exact (scan_covers shift l (hw.child (List.mem_cons_self ..))).append
      (scan_covers shift r (hw.child (List.mem_cons_of_mem l (List.mem_singleton_self _))))
  | tuple x es | list x es | set x es | composite x form es =>
    rw [scan, Expr.loads]
    exact scan_all_covers shift es fun e he => hw.child he
  | dict x ks vs =>
    rw [scan, Expr.loads]
    exact (scan_all_covers shift ks fun k hk => hw.child (List.mem_append_left vs hk)).append
      (scan_all_covers shift vs fun v hv => hw.child (List.mem_append_right ks hv))

theorem scan_all_covers (shift : Shift) (es : List Expr) (hw : ∀ e ∈ es, e.Worded) :
    (scanAll imported shift es).Covers imported (Expr.loadsOfAll es) := by
  cases es with
  | nil => exact .nothing
  | cons e es =>
    obtain ⟨he, hes⟩ := List.forall_mem_cons.mp hw
    exact (scan_covers shift e he).append (scan_all_covers shift es hes)

theorem scan_init_covers (es : List Expr) (hw : ∀ e ∈ es, e.Worded) :
    (scanInit imported es).Covers imported (Expr.loadsOfAll es.dropLast) := by
  cases es with
  | nil => exact .nothing
  | cons e es =>
    cases es with
    | nil => exact .nothing
    | cons f es =>
      obtain ⟨he, hes⟩ := List.forall_mem_cons.mp hw
      exact (scan_covers (some 0) e he).append (scan_init_covers (f :: es) hes)

end

/-- No name is lost in an expression, and none is made up. Of the names that it reads, those that
are not imported are among the names that its columns go by, each as often as it is read and in the
same order; and each column that is read goes by a name that stands in the expression. The
expressions of a program are of this kind. -/
theorem names_are_read :
    (∀ text name unit, SourceUnit.parse text name = .ok unit →
      ∀ e ∈ Stmt.expressionsOfAll unit.statements, e.Worded) ∧
    ∀ (imported : List String) (shift : Shift) (e : Expr), e.Worded →
      (e.loads.filter (· ∉ imported)).Sublist
        ((scan imported shift e).reads.map (·.column.leading)) ∧
      ∀ o ∈ (scan imported shift e).reads,
        ∃ x role, (Expr.name x o.column.leading role).Occurs e := by
  refine ⟨fun text name unit h => SourceUnit.expressions_worded h, ?_⟩
  intro imported shift e hw
  refine ⟨scan_covers shift e hw, fun o ho => ?_⟩
  obtain ⟨_, hself, d, hd, hread⟩ := (scan_stems shift e).reads o ho
  obtain rfl := List.mem_singleton.mp hself
  obtain ⟨x, role, hname⟩ := hread.begins (hw.of_occurs hd)
  exact ⟨x, role, hname.trans hd⟩

/-- A column of some rows, beside a call of an imported module. -/
def rowsAndMean : String := "y = df.loc[rows(a), \"k\"] + np.mean(w)\n"

theorem names_of_rows_and_mean :
    ∃ unit, SourceUnit.parse rowsAndMean "rows" = .ok unit ∧
      ∃ e ∈ Stmt.expressionsOfAll unit.statements, e.loads = ["df", "a", "np", "w"] ∧
        ["df", "a", "w"].Sublist ((scan ["np"] (some 0) e).reads.map (·.column.leading)) := by
  have hfacts : SourceUnit.parsesTo rowsAndMean "rows" (fun unit =>
      (Stmt.expressionsOfAll unit.statements).any fun e =>
        decide (e.loads = ["df", "a", "np", "w"])) = true := by
    decide +kernel
  obtain ⟨unit, hparse, hunit⟩ := SourceUnit.parses_to_iff.mp hfacts
  obtain ⟨e, he, hloads⟩ := List.any_eq_true.mp hunit
  have hloads := of_decide_eq_true hloads
  have hw := names_are_read.1 rowsAndMean "rows" unit hparse e he
  have hread := (names_are_read.2 ["np"] (some 0) e hw).1
  rw [hloads] at hread
  exact ⟨unit, hparse, e, he, hloads, hread⟩

end BacktestAudit.Flow
