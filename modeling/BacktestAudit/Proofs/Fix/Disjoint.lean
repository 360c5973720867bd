import BacktestAudit.Fix.Selection
import BacktestAudit.Proofs.Fix.Borders
import BacktestAudit.Proofs.Fix.OnePass
import BacktestAudit.Proofs.Flow.NestedReads

/-!
What is selected for one pass, and when its edits can be made together. Findings are kept apart from
one another, but nothing keeps the edits of one finding apart: a signal that is read by an indexer
and among its rows is shifted at both places, one inside the other.
-/
namespace BacktestAudit.Fix
open BacktestAudit.Source BacktestAudit.Syntax BacktestAudit.Flow BacktestAudit.Rules
  BacktestAudit.Text
set_option autoImplicit false

/-! ## Selection -/

/-- An edit of the one finding collides with an edit of the other. -/
def Clash (f g : Finding) : Prop :=
  ∃ e ∈ f.edits, ∃ d ∈ g.edits, collide e.span d.span = true

theorem clashes_iff {taken : List Edit} {f : Finding} : clashes taken f = true ↔
    ∃ e ∈ f.edits, ∃ t ∈ taken, collide e.span t.span = true := by
  simp only [clashes, List.any_eq_true]

theorem selected_apart (taken : List Edit) (fs : List Finding) :
    (selectFrom taken fs).selected.Pairwise (fun g f => ¬ Clash f g) ∧
      ∀ f ∈ (selectFrom taken fs).selected, clashes taken f = false := by
  fun_induction selectFrom taken fs with
  | case1 => exact ⟨.nil, nofun⟩
  | case2 _ _ _ _ ih | case3 _ _ _ _ _ _ ih => exact ih
  | case4 taken f fs _ hfree rest ih =>
    have hkept : ∀ g ∈ rest.selected, clashes taken g = false ∧ ¬ Clash g f := by
      intro g hg
      have hapart := mt clashes_iff.mpr (Bool.eq_false_iff.mp (ih.2 g hg))
      refine ⟨Bool.eq_false_iff.mpr fun hclash => hapart ?_, fun hclash => hapart ?_⟩
      · obtain ⟨e, he, t, ht, hcollide⟩ := clashes_iff.mp hclash
        exact ⟨e, he, t, List.mem_append_left _ ht, hcollide⟩
      · obtain ⟨e, he, d, hd, hcollide⟩ := hclash
        exact ⟨e, he, d, List.mem_append_right _ hd, hcollide⟩
    refine ⟨List.pairwise_cons.mpr ⟨fun g hg => (hkept g hg).2, ih.1⟩, ?_⟩
    exact List.forall_mem_cons.mpr
      ⟨Bool.eq_false_iff.mpr hfree, fun g hg => (hkept g hg).1⟩

theorem deferred_clashes (taken : List Edit) (fs : List Finding) :
    ∀ f ∈ (selectFrom taken fs).deferred, clashes taken f = true ∨
      ∃ g ∈ (selectFrom taken fs).selected, [g, f].Sublist fs ∧ Clash f g := by
  fun_induction selectFrom taken fs with
  | case1 => nofun
  | case2 taken f fs _ ih =>
    intro g hg
    exact (ih g hg).imp_right fun ⟨d, hd, hsub, hclash⟩ => ⟨d, hd, hsub.cons f, hclash⟩
  | case3 taken f fs _ hclash rest ih =>
    refine List.forall_mem_cons.mpr ⟨.inl hclash, fun g hg => ?_⟩
    exact (ih g hg).imp_right fun ⟨d, hd, hsub, hclash⟩ => ⟨d, hd, hsub.cons f, hclash⟩
  | case4 taken f fs _ _ rest ih =>
    intro g hg
    rcases ih g hg with hclash | ⟨d, hd, hsub, hclash⟩
    · obtain ⟨e, he, t, ht, hcollide⟩ := clashes_iff.mp hclash
      rcases List.mem_append.mp ht with ht | ht
      · exact .inl (clashes_iff.mpr ⟨e, he, t, ht, hcollide⟩)
      · have hdeferred := (select_from_partitions (taken ++ f.edits) fs).2.1
        have hgs : g ∈ fs := List.filter_sublist.subset (hdeferred.subset hg)
        exact .inr ⟨f, List.mem_cons_self .., (List.singleton_sublist.mpr hgs).cons_cons f,
          e, he, t, ht, hcollide⟩
    · exact .inr ⟨d, List.mem_cons_of_mem f hd, hsub.cons f, hclash⟩

/-! ## The edits of one finding -/

/-- Of two edits the first is at a column that a unit chooses by an indexer, and the second among the
rows that are chosen with it. -/
def EditsNest (unit : SourceUnit) (e d : Edit) : Prop :=
  ∃ x y : Extent, AmongRows (Stmt.expressionsOfAll unit.statements) x y ∧
    e.span = x.span ∧ d.span = y.span

theorem collide_of_nest {text name : String} {unit : SourceUnit}
    (h : SourceUnit.parse text name = .ok unit) {e d : Edit} (hnest : EditsNest unit e d) :
    e.span ≠ d.span ∧ collide e.span d.span = true := by
  obtain ⟨x, y, hrows, hx, hy⟩ := hnest
  obtain ⟨hstart, hlt, hstop, hshort⟩ :=
    hrows.inside fun e he => ((SourceUnit.expressions_placed h).1 e he).1
  rw [hx, hy]
  constructor
  · intro heq
    simp only [Extent.span, Span.mk.injEq] at heq
    omega
  · by_contra hfree
    have hside := (collide_eq_false_iff.mp (Bool.eq_false_iff.mpr hfree)).1
    simp only [Extent.span] at hside
    omega

/-- Two shifts of one assignment collide only at a column by an indexer and among its rows. -/
theorem nest_of_collide {text name : String} {unit : SourceUnit}
    (h : SourceUnit.parse text name = .ok unit) {a : Assignment}
    (ha : a ∈ (Graph.ofUnit unit).assignments.toList) {reads : List Read} (hreads : reads ⊆ a.reads)
    {e d : Edit} (he : e ∈ shiftEdits unit.text reads) (hd : d ∈ shiftEdits unit.text reads)
    (hne : e.span ≠ d.span) (hcollide : collide e.span d.span = true) :
    EditsNest unit e d ∨ EditsNest unit d e := by
  obtain ⟨r, hr, rfl⟩ := mem_shift_edits he
  obtain ⟨r', hr', rfl⟩ := mem_shift_edits hd
  have hlt := (read_placed h ha (hreads hr)).1
  have hnot : ¬ ApartAt r.extent r'.extent := by
    intro hapart
    have hfree : collide r.span r'.span = false := by
      refine (not_collide_iff (Int.ofNat_lt.mpr hlt)).mpr ?_
      exact hapart.imp Int.ofNat_le.mpr Int.ofNat_le.mpr
    exact Bool.false_ne_true (hfree.symm.trans hcollide)
  rcases reads_nested h ha (hreads hr) (hreads hr') with heq | hbeside | hbeside
  · exact absurd (congrArg Extent.span heq) hne
  · exact .inl ⟨_, _, hbeside.resolve_left hnot, rfl, rfl⟩
  · exact .inr ⟨_, _, hbeside.resolve_left fun hapart => hnot hapart.symm, rfl, rfl⟩

/-- Two edits that a rule offers together collide only when they shift a signal by an indexer and one
among its rows. -/
theorem offered_edits_nest {text name : String} {unit : SourceUnit}
    (h : SourceUnit.parse text name = .ok unit) {r : Rules.Rule} {es : List Edit}
    (hes : Offers unit r es) : es.Pairwise fun e d => collide e.span d.span = true →
      r = .unshiftedSignal ∧ (EditsNest unit e d ∨ EditsNest unit d e) := by
  cases hes with
  | nothing => exact .nil
  | shift ha hreads =>
    refine (shift_edits_spans unit.text _).imp_of_mem fun he hd hne hcollide => ⟨rfl, ?_⟩
    exact nest_of_collide h ha hreads he hd hne hcollide
  | label | window => exact keyword_edit_spans ..
  | fill hsite =>
    obtain ⟨x, func, arguments, hrecord, hplaced, hshown, _⟩ := call_of_site h hsite
    rw [(SourceUnit.parse_eq_ok h).1]
    refine (fill_edits_bordered hplaced hshown hrecord).2.imp_of_mem fun he _ hbefore hcollide => ?_
    have hfits := fill_edits_fit hplaced hrecord he
    have hfree := (not_collide_iff hfits.start_lt).mpr (.inl hbefore)
    rw [hfree] at hcollide
    nomatch hcollide

/-! ## The edits of a selection -/

/-- A splice is refused for an overlap exactly when two edits collide. -/
theorem splice_overlap_iff {text : String} {es : List TaggedEdit}
    (hle : ∀ e ∈ es, e.edit.span.start ≤ e.edit.span.stop) :
    (∃ a b place, splice text es = .error (.error (.overlap a b place))) ↔
      ¬ es.Pairwise fun a b => collide a.edit.span b.edit.span = false := by
  rw [← collision_ordered_eq_none_iff hle]
  constructor
  · rintro ⟨a, b, place, hrefused⟩ hnone
    simp only [splice, hnone] at hrefused
    split at hrefused
    · cases hrefused
    · cases hrefused
  · intro hsome
    obtain ⟨⟨a, b⟩, hcollision⟩ := Option.ne_none_iff_exists'.mp hsome
    refine ⟨a.rule, b.rule, ⟨b.edit.span.start, a.edit.span.stop⟩, ?_⟩
    simp only [splice, hcollision]

theorem collide_within {fs : List Finding} (hapart : fs.Pairwise fun g f => ¬ Clash f g)
    (hown : ∀ f ∈ fs, f.edits.Pairwise fun e d => collide e.span d.span = false) :
    (taggedEdits fs).Pairwise fun a b => collide a.edit.span b.edit.span = false := by
  refine List.pairwise_flatMap.mpr ⟨fun f hf => List.pairwise_map.mpr (hown f hf), ?_⟩
  refine hapart.imp fun {g f} hnot a ha b hb => ?_
  obtain ⟨d, hd, rfl⟩ := List.mem_map.mp ha
  obtain ⟨e, he, rfl⟩ := List.mem_map.mp hb
  rw [collide_comm]
  exact Bool.eq_false_iff.mpr fun hcollide => hnot ⟨e, he, d, hd, hcollide⟩

/-- Fixable findings are partitioned in order into those that are selected and those that are
deferred, each of these for an edit that overlaps or equals one of a finding selected before it. The
edits of all selected findings can be made at once, unless one of them shifts a signal that is chosen
by an indexer and another one among the rows that are chosen with it. -/
theorem selection_spliced_unless_nested {text name : String} {unit : SourceUnit}
    (h : SourceUnit.parse text name = .ok unit) {s : Settings} {fs : List Finding}
    (hfs : analyze s unit = .ok fs) :
    ((select fs).selected.Sublist (fs.filter (·.fixAvailable)) ∧
      (select fs).deferred.Sublist (fs.filter (·.fixAvailable)) ∧
      ((select fs).selected ++ (select fs).deferred).Perm (fs.filter (·.fixAvailable))) ∧
    (∀ f ∈ (select fs).deferred,
      ∃ g ∈ (select fs).selected, [g, f].Sublist fs ∧ Clash f g) ∧
    ((∃ a b place, splice unit.text (taggedEdits (select fs).selected) =
        .error (.error (.overlap a b place))) ↔
      ∃ f ∈ (select fs).selected, f.rule = Rule.unshiftedSignal.code ∧
        ∃ e ∈ f.edits, ∃ d ∈ f.edits, EditsNest unit e d) := by
  have hreported : (select fs).selected ⊆ fs := (selected_sublist [] fs).subset
  have hle : ∀ e ∈ taggedEdits (select fs).selected, e.edit.span.start ≤ e.edit.span.stop := by
    intro e he
    obtain ⟨f, hf, _, hedit⟩ := rule_of_tagged he
    exact (edits_fit h hfs (hreported hf) hedit).inside.start_le
  refine ⟨select_from_partitions [] fs, fun f hf => ?_, ?_⟩
  · refine (deferred_clashes [] fs f hf).resolve_left fun hclash => ?_
    obtain ⟨_, _, _, hnil, _⟩ := clashes_iff.mp hclash
    nomatch hnil
  rw [splice_overlap_iff hle]
  constructor
  · intro hrefused
    by_contra hnone
    refine hrefused (collide_within (selected_apart [] fs).1 fun f hf => ?_)
    obtain ⟨r, hrule, hoffers⟩ := offers_of_mem hfs (hreported hf)
    refine (offered_edits_nest h hoffers).imp_of_mem fun {e d} he hd himp => ?_
    by_contra hcollide
    obtain ⟨rfl, hnest⟩ := himp (Bool.not_eq_false _ ▸ hcollide)
    rcases hnest with hnest | hnest
    · exact hnone ⟨f, hf, hrule, e, he, d, hd, hnest⟩
    · exact hnone ⟨f, hf, hrule, d, hd, e, he, hnest⟩
  · rintro ⟨f, hf, _, e, he, d, hd, hnest⟩ hapart
    obtain ⟨hne, hcollide⟩ := collide_of_nest h hnest
    have htagged : ∀ c ∈ f.edits, ⟨f.rule, c⟩ ∈ taggedEdits (select fs).selected := fun c hc =>
      List.mem_flatMap.mpr ⟨f, hf, List.mem_map_of_mem hc⟩
    have hsymm : Std.Symm fun a b : TaggedEdit => collide a.edit.span b.edit.span = false :=
      ⟨fun a b hab => (collide_comm _ _).trans hab⟩
    have hfree := hapart.forall (htagged e he) (htagged d hd) fun heq =>
      hne (congrArg (·.edit.span) heq)
    exact Bool.false_ne_true (hfree.symm.trans hcollide)

/-- A window around the bar among the rows of a signal. -/
def windowAmongRowsText : String := "pos = df.loc[x.rolling(3, center=True), \"signal\"]\n"

theorem window_among_rows_deferred :
    ∃ unit fs, SourceUnit.parse windowAmongRowsText "window" = .ok unit ∧
      analyze .standard unit = .ok fs ∧ (select fs).selected.map (·.rule) = ["LB001"] ∧
      (select fs).deferred.map (·.rule) = ["LB004"] ∧
      (∀ f ∈ (select fs).deferred, ∃ g ∈ (select fs).selected, [g, f].Sublist fs ∧ Clash f g) ∧
      ¬ ∃ f ∈ (select fs).selected, f.rule = Rule.unshiftedSignal.code ∧
        ∃ e ∈ f.edits, ∃ d ∈ f.edits, EditsNest unit e d := by
  have hfacts : auditsTo .standard windowAmongRowsText "window" (fun _ fs =>
      (select fs).selected.map (·.rule) = ["LB001"] &&
        (select fs).deferred.map (·.rule) = ["LB004"] &&
        splicesTo windowAmongRowsText
          "pos = df.loc[x.rolling(3, center=True), \"signal\"].shift(1)\n"
          (taggedEdits (select fs).selected)) = true := by
    decide +kernel
  obtain ⟨unit, fs, hparse, hfs, htest⟩ := audits_to_iff.mp hfacts
  simp only [Bool.and_eq_true, decide_eq_true_eq, splices_to_iff] at htest
  obtain ⟨⟨hselected, hdeferred⟩, hspliced⟩ := htest
  obtain ⟨_, hclash, hiff⟩ := selection_spliced_unless_nested hparse hfs
  refine ⟨unit, fs, hparse, hfs, hselected, hdeferred, hclash, fun hnest => ?_⟩
  obtain ⟨a, b, place, hrefused⟩ := hiff.mpr hnest
  rw [(SourceUnit.parse_eq_ok hparse).1, hspliced] at hrefused
  nomatch hrefused

/-- A signal by an indexer, with a signal for its rows. -/
def signalAmongRowsText : String := "pos = df.loc[signal, \"signal\"]\n"

/-- A selection that is refused for the edits of one finding. -/
theorem selected_finding_overlaps :
    ∃ unit fs, SourceUnit.parse signalAmongRowsText "rows" = .ok unit ∧
      analyze .standard unit = .ok fs ∧ (select fs).selected.map (·.rule) = ["LB001"] ∧
      splice unit.text (taggedEdits (select fs).selected) =
        .error (.error (.overlap "LB001" "LB001" ⟨13, 30⟩)) := by
  have hfacts : auditsTo .standard signalAmongRowsText "rows" (fun unit fs =>
      (select fs).selected.map (·.rule) = ["LB001"] &&
        match splice unit.text (taggedEdits (select fs).selected) with
        | .ok _ => false
        | .error e => e = .error (.overlap "LB001" "LB001" ⟨13, 30⟩)) = true := by
    decide +kernel
  obtain ⟨unit, fs, hparse, hfs, htest⟩ := audits_to_iff.mp hfacts
  rw [Bool.and_eq_true, decide_eq_true_eq] at htest
  obtain ⟨hselected, htest⟩ := htest
  refine ⟨unit, fs, hparse, hfs, hselected, ?_⟩
  cases hspliced : splice unit.text (taggedEdits (select fs).selected) with
  | ok spliced =>
    rw [hspliced] at htest
    nomatch htest
  | error e =>
    rw [hspliced] at htest
    exact congrArg _ (of_decide_eq_true htest)

end BacktestAudit.Fix
