import BacktestAudit.Proofs.CommandLine.FixedFile

/-!
A pass over what a pass has left. When no fix was put off, the first pass has made every fix that was
offered, and it stands only if none of the findings that it mended is reported again. The lags that it
adds may still turn a finding without a fix into one that offers one: a signal that looked ahead is on
its bar once the value that it comes from is kept back. A second pass mends such findings, and none
that was offered a fix before.
-/
namespace BacktestAudit.CommandLine.Fix
open BacktestAudit.Data BacktestAudit.Source BacktestAudit.Syntax BacktestAudit.Flow
  BacktestAudit.Rules BacktestAudit.Fix BacktestAudit.Data.Outcome
set_option autoImplicit false

/-! ## Selection -/

theorem selected_or_deferred {taken : List Edit} {fs : List Finding} {f : Finding} (hf : f ∈ fs)
    (hfix : f.fixAvailable = true) :
    f ∈ (selectFrom taken fs).selected ∨ f ∈ (selectFrom taken fs).deferred := by
  have hperm := (select_from_partitions taken fs).2.2
  exact List.mem_append.mp (hperm.mem_iff.mpr (List.mem_filter.mpr ⟨hf, hfix⟩))

theorem select_eq_nil_iff {fs : List Finding} :
    (select fs).selected = [] ↔ ∀ f ∈ fs, f.fixAvailable = false := by
  constructor
  · intro hnone
    induction fs with
    | nil => exact List.forall_mem_nil _
    | cons f fs ih =>
      cases hfix : f.fixAvailable with
      | false =>
        have hrest : (select (f :: fs)).selected = (select fs).selected := by
          simp [select, selectFrom, hfix]
        exact List.forall_mem_cons.mpr ⟨hfix, ih (hrest ▸ hnone)⟩
      -- Nothing is taken yet that the first fix could collide with.
      | true => simp [select, selectFrom, clashes, hfix] at hnone
  · intro hall
    refine List.eq_nil_iff_forall_not_mem.mpr fun f hf => ?_
    have hfix := fix_available_of_mem_selected [] fs f hf
    rw [hall f ((selected_sublist [] fs).subset hf)] at hfix
    cases hfix

/-! ## Findings without a fix -/

theorem set_name_eq {α : Type} (l : List (String × α)) (key : String) (v : α) :
    setName l key v = Entries.insert l key v := by
  induction l with
  | nil => rfl
  | cons d ds ih =>
    obtain ⟨k, w⟩ := d
    unfold setName Entries.insert
    rw [ih]
    split
    · next hk => rw [hk]
    · rfl

theorem lookup_set_name {α : Type} (l : List (String × α)) (key other : String) (v : α) :
    (setName l key v).lookup other = if other = key then some v else l.lookup other := by
  rw [set_name_eq]
  exact Entries.get_insert l key other v

theorem span_of_literal (arguments : List Expr) (name : String) :
    ((literalKeywords arguments).lookup name).isSome →
      ((keywordSpans arguments).lookup name).isSome := by
  unfold literalKeywords keywordSpans
  refine List.foldl_rel (r := fun (ls : List (String × Literal)) (spans : List (String × Span)) =>
    (ls.lookup name).isSome → (spans.lookup name).isSome) id fun a _ ls spans h => ?_
  split
  · next _ key v _ =>
    rw [lookup_set_name]
    by_cases hkey : name = key
    · rw [if_pos hkey]
      exact fun _ => rfl
    · rw [if_neg hkey]
      split
      · rw [lookup_set_name, if_neg hkey]
        exact h
      · exact h
  · exact h

theorem is_some_of_word {l : Option Literal} {word : String} (h : isWord l word = true) :
    l.isSome := by
  cases l with
  | none => nomatch h
  | some _ => rfl

theorem is_some_of_true {l : Option Literal} (h : isTrueLiteral l = true) : l.isSome := by
  cases l with
  | none => nomatch h
  | some _ => rfl

theorem keyword_edit_ne_nil {unit : SourceUnit} {c : CallSite}
    (hc : c ∈ (Graph.ofUnit unit).calls) {name : String} (h : (c.keyword? name).isSome)
    (replacement : Span → String) : keywordEdit c name replacement ≠ [] := by
  obtain ⟨call, _, hrecords⟩ := exists_right_of_mem (unit_records unit) hc
  have hspans : (c.keywordSpans.lookup name).isSome := by
    cases hrecords with
    | intro x func arguments => exact span_of_literal arguments name h
  obtain ⟨span, hspan⟩ := Option.isSome_iff_exists.mp hspans
  rw [keywordEdit, hspan]
  exact nofun

/-- Calls that are reported for a literal argument are reported with edits that replace it. -/
theorem keyword_match_edits_ne_nil {unit : SourceUnit} {test : CallSite → Bool}
    {report : CallSite → Match} {m : Match}
    (hm : m ∈ (Graph.ofUnit unit).calls.filterMap fun c => if test c then some (report c) else none)
    {name : String} {replacement : Span → String}
    (hliteral : ∀ c, test c = true → (c.keyword? name).isSome)
    (hreport : ∀ c, (report c).edits = keywordEdit c name replacement) : m.edits ≠ [] := by
  obtain ⟨c, hc, heq⟩ := List.mem_filterMap.mp hm
  split at heq
  · next htest =>
    obtain rfl := Option.some.inj heq
    rw [hreport]
    exact keyword_edit_ne_nil hc (hliteral c htest) replacement
  · cases heq

/-- A read of a signal that a shift by a bar would not lag by just that bar: it is shifted where it
stands, or it looks ahead. -/
structure StaysUnlagged (roles : Roles) (r : Read) : Prop where
  signal : roles.isSignal r.column.name = true
  varies : r.sourceIsConstant = false
  unlagged : isUnlagged r.lag = true
  shifted_or_ahead : r.shift ≠ some 0 ∨ r.lag.isNegative = true

/-- Whether an assignment at a place makes a position of such a signal. -/
def ReadsAhead (roles : Roles) (unit : SourceUnit) (place : Lines) : Prop :=
  ∃ a ∈ (Graph.ofUnit unit).assignments.toList, a.place = place ∧
    roles.isPosition a.target.name = true ∧ ∃ r ∈ a.reads, StaysUnlagged roles r

theorem set_edit_ne_nil (es : List Edit) (e : Edit) : setEdit es e ≠ [] := by
  cases es with
  | nil => exact List.cons_ne_nil _ _
  | cons d ds =>
    unfold setEdit
    split <;> exact List.cons_ne_nil _ _

theorem one_for_span_ne_nil {es : List Edit} (h : es ≠ []) : oneForSpan es ≠ [] := by
  obtain ⟨e, es, rfl⟩ := List.exists_cons_of_ne_nil h
  have hset : (e :: es).foldl setEdit [] ≠ [] :=
    List.foldlRecOn (motive := (· ≠ [])) es setEdit (set_edit_ne_nil [] e)
      fun acc _ d _ => set_edit_ne_nil acc d
  obtain ⟨d, hd⟩ := List.exists_mem_of_ne_nil _ hset
  exact List.ne_nil_of_mem (mem_sort_by.mpr hd)

theorem shifted_or_ahead_of_not_one {r : Read} (hlag : isUnlagged r.lag = true)
    (hone : lagsByOne r = false) : r.shift ≠ some 0 ∨ r.lag.isNegative = true := by
  refine or_iff_not_imp_left.mpr fun hshift => ?_
  rw [lagsByOne, not_not.mp hshift, decide_eq_true rfl, Bool.true_and] at hone
  cases hread : r.lag with
  | none => simp [hread] at hone
  | some n =>
    simp only [hread, isUnlagged, decide_eq_true_eq] at hlag
    simp [hread] at hone
    simp only [Lag.isNegative, decide_eq_true_eq]
    omega

theorem reads_ahead_of_no_edits {ctx : Context} {unit : SourceUnit} {m : Match}
    (hm : m ∈ unshiftedSignals ctx (Graph.ofUnit unit)) (hedits : m.edits = []) :
    ReadsAhead ctx.roles unit m.place := by
  obtain ⟨a, ha, heq⟩ := List.mem_filterMap.mp hm
  split at heq
  · next hposition =>
    split at heq
    · nomatch heq
    · next hreads =>
      obtain rfl := Option.some.inj heq
      have hnot : ¬(unlaggedSignals ctx.roles a).all lagsByOne := by
        intro hall
        rw [shiftEdits, if_pos hall] at hedits
        exact one_for_span_ne_nil (List.map_eq_nil_iff.not.mpr hreads) hedits
      obtain ⟨r, hr, hone⟩ := List.all_eq_false.mp (Bool.eq_false_iff.mpr hnot)
      obtain ⟨hmem, htest⟩ := List.mem_filter.mp hr
      simp only [Bool.and_eq_true, Bool.not_eq_true'] at htest
      exact ⟨a, ha, rfl, hposition, r, hmem, htest.1.1, htest.1.2, htest.2,
        shifted_or_ahead_of_not_one htest.2 (Bool.eq_false_iff.mpr hone)⟩
  · nomatch heq

/-- A finding without a fix whose rule knows edits: a fill that cannot be written otherwise, or a
position whose signal a shift would not lag by a bar. -/
theorem cause_of_no_fix {s : Settings} {unit : SourceUnit} {found : List Finding}
    (hfound : analyze s unit = .ok found) {f : Finding} (hf : f ∈ found)
    (hfix : f.fixAvailable = false) {rule : Rules.Rule} (hrule : f.rule = rule.code)
    (hknown : rule.isFixable = true) :
    rule = .deprecatedFill ∨
      rule = .unshiftedSignal ∧ ReadsAhead (.ofSettings s.patterns) unit f.place := by
  obtain ⟨rule', ms, m, hms, hm, rfl⟩ := exists_match_of_mem hfound hf
  obtain rfl := Rule.code_inj hrule
  have hedits : m.edits = [] := by simpa [finding] using hfix
  cases rule' with
  | deprecatedFill => exact .inl rfl
  | unshiftedSignal =>
    obtain rfl := Except.ok.inj hms
    exact .inr ⟨rfl, reads_ahead_of_no_edits hm hedits⟩
  | misalignedResample =>
    obtain rfl := Except.ok.inj hms
    exact absurd hedits (keyword_match_edits_ne_nil hm
      (fun _ h => is_some_of_word (Bool.and_eq_true_iff.mp h).2) fun _ => rfl)
  | centeredWindow =>
    obtain rfl := Except.ok.inj hms
    exact absurd hedits (keyword_match_edits_ne_nil hm
      (fun _ h => is_some_of_true (Bool.and_eq_true_iff.mp h).2) fun _ => rfl)
  | globalStatistic | fitOnFullRange | forwardReference | backfill | dynamicCode | credential =>
    cases hknown

/-- A finding that offers a fix is of a rule that knows edits. -/
theorem rule_of_fix {s : Settings} {unit : SourceUnit} {found : List Finding}
    (hfound : analyze s unit = .ok found) {f : Finding} (hf : f ∈ found)
    (hfix : f.fixAvailable = true) : ∃ rule : Rules.Rule, f.rule = rule.code ∧
      rule.isFixable = true := by
  obtain ⟨rule, ms, m, hms, hm, rfl⟩ := exists_match_of_mem hfound hf
  refine ⟨rule, rfl, ?_⟩
  by_contra hknown
  simp [finding, edits_of_unfixable (Bool.eq_false_iff.mpr hknown) hms hm] at hfix

/-! ## The second pass -/

section Clean
variable {s : Settings} {unit : SourceUnit} {found : List Finding} {r : FixResult}

theorem parse_of_apply (happly : Fix.apply s unit (select found).selected = .ok r) :
    SourceUnit.parse r.unit.text unit.name = .ok r.unit ∧ analyze s r.unit = .ok r.remaining := by
  obtain ⟨_, text, _, hparse, hremaining, _⟩ := apply_eq_ok.mp happly
  exact ⟨by rwa [(SourceUnit.parse_eq_ok hparse).1], hremaining⟩

theorem key_of_remaining (hclean : (select found).deferred = [])
    (happly : Fix.apply s unit (select found).selected = .ok r) {f g : Finding} (hf : f ∈ found)
    (hg : g ∈ r.remaining) (hkey : f.key = g.key) : f.fixAvailable = false := by
  obtain ⟨_, _, _, _, _, hcleared, _⟩ := apply_eq_ok.mp happly
  by_contra hfix
  rcases selected_or_deferred hf (eq_true_of_ne_false hfix) with hselected | hdeferred
  · exact hcleared g hg (hkey ▸ List.mem_map_of_mem hselected)
  · have hdeferred : f ∈ (select found).deferred := hdeferred
    rw [hclean] at hdeferred
    nomatch hdeferred

theorem selected_of_second (happly : Fix.apply s unit (select found).selected = .ok r) {p : Pass}
    (hpass : pass s unit.name r.unit.text = .ok p) : p.selected = (select r.remaining).selected := by
  obtain ⟨hparse, hremaining⟩ := parse_of_apply happly
  obtain ⟨unit', found', r', hparse', hfound', _, rfl⟩ := pass_eq_ok.mp hpass
  rw [hparse] at hparse'
  obtain rfl := Except.ok.inj hparse'
  rw [hremaining] at hfound'
  obtain rfl := Except.ok.inj hfound'
  rfl

theorem second_selects_nothing_iff (happly : Fix.apply s unit (select found).selected = .ok r) :
    pass s unit.name r.unit.text = .ok ⟨r.unit.text, [], r.remaining⟩ ↔
      ∀ g ∈ r.remaining, g.fixAvailable = false := by
  obtain ⟨hparse, hremaining⟩ := parse_of_apply happly
  rw [← select_eq_nil_iff]
  constructor
  · exact fun hpass => (selected_of_second happly hpass).symm
  · intro hnone
    refine pass_eq_ok.mpr ⟨r.unit, r.remaining, ⟨r.unit, [], r.remaining⟩, hparse, hremaining, ?_, ?_⟩
    · rw [hnone]
      exact apply_nil hparse hremaining
    · rw [hnone]

/-- After a pass that put no fix off, what still offers one was not offered one before: where it had
been reported, it is a fill that could not be written otherwise, or a position whose signal a shift
would not have lagged by a bar. A second pass mends such findings alone; it selects nothing and keeps
the text exactly when none of what is left offers a fix. -/
theorem second_pass_of_clean (hfound : analyze s unit = .ok found)
    (hclean : (select found).deferred = [])
    (happly : Fix.apply s unit (select found).selected = .ok r) :
    (∀ g ∈ r.remaining, g.fixAvailable = true → ∀ f ∈ found, f.key = g.key →
      f.fixAvailable = false ∧
        (f.rule = Rule.deprecatedFill.code ∨
          f.rule = Rule.unshiftedSignal.code ∧
            ReadsAhead (.ofSettings s.patterns) unit f.place)) ∧
      (∀ p, pass s unit.name r.unit.text = .ok p → p.selected = (select r.remaining).selected) ∧
      (pass s unit.name r.unit.text = .ok ⟨r.unit.text, [], r.remaining⟩ ↔
        ∀ g ∈ r.remaining, g.fixAvailable = false) := by
  refine ⟨fun g hg hfix f hf hkey => ?_, fun p => selected_of_second happly,
    second_selects_nothing_iff happly⟩
  have hnone := key_of_remaining hclean happly hf hg hkey
  obtain ⟨rule, hrule, hknown⟩ := rule_of_fix (parse_of_apply happly).2 hg hfix
  have hrule' : f.rule = rule.code := (congrArg FindingKey.rule hkey).trans hrule
  rw [hrule']
  refine ⟨hnone, ?_⟩
  exact (cause_of_no_fix hfound hf hnone hrule' hknown).imp (congrArg Rule.code)
    (And.imp_left (congrArg Rule.code))

end Clean

/-! ## Two passes -/

/-- Whether no fix that is reported is put off, and those that are selected have some keys and make a
text of another. -/
def selectsAll (text made : String) (found : List Finding) (keys : List FindingKey) : Bool :=
  (select found).deferred.isEmpty && (select found).selected.map Finding.key = keys &&
    splicesTo text made (taggedEdits (select found).selected)

theorem apply_of_selects_all {s : Settings} {text made name : String} {unit : SourceUnit}
    {found : List Finding} {keys : List FindingKey} {test : SourceUnit → List Finding → Bool}
    (hparse : SourceUnit.parse text name = .ok unit) (hfound : analyze s unit = .ok found)
    (hall : selectsAll text made found keys = true) (hclears : clears s made name keys test = true) :
    (select found).deferred = [] ∧ (select found).selected.map Finding.key = keys ∧
      ∃ r, Fix.apply s unit (select found).selected = .ok r ∧
        SourceUnit.parse made name = .ok r.unit ∧ test r.unit r.remaining = true := by
  simp only [selectsAll, Bool.and_eq_true, List.isEmpty_iff, decide_eq_true_eq] at hall
  obtain ⟨⟨hclean, hkeys⟩, hsplice⟩ := hall
  exact ⟨hclean, hkeys,
    apply_of_clears hparse (check_target_of_selected hfound) hkeys hsplice hclears⟩

/-- Of the two positions the first can be mended; the second reads its signal a bar ahead. -/
def laggedAndAheadText : String := "pos = sig
order = sig.shift(-1)
"

theorem second_pass_of_lagged_and_ahead :
    ∃ unit found r, SourceUnit.parse laggedAndAheadText "ahead" = .ok unit ∧
      analyze .standard unit = .ok found ∧ (select found).selected.length = 1 ∧
      (select found).deferred = [] ∧ Fix.apply .standard unit (select found).selected = .ok r ∧
      r.remaining.map Finding.key = [⟨"LB001", ⟨2, 2⟩⟩, ⟨"LB003", ⟨2, 2⟩⟩] ∧
      pass .standard unit.name r.unit.text = .ok ⟨r.unit.text, [], r.remaining⟩ := by
  have hfacts : auditsTo .standard laggedAndAheadText "ahead" (fun _ found =>
      selectsAll laggedAndAheadText "pos = sig.shift(1)\norder = sig.shift(-1)\n" found
        [⟨"LB001", ⟨1, 1⟩⟩]) = true := by
    decide +kernel
  have hclears : clears .standard "pos = sig.shift(1)\norder = sig.shift(-1)\n" "ahead"
      [⟨"LB001", ⟨1, 1⟩⟩] (fun _ rest =>
        rest.map Finding.key = [⟨"LB001", ⟨2, 2⟩⟩, ⟨"LB003", ⟨2, 2⟩⟩] &&
          rest.all (!·.fixAvailable)) = true := by
    decide +kernel
  obtain ⟨unit, found, hparse, hfound, hall⟩ := audits_to_iff.mp hfacts
  obtain ⟨hclean, hkeys, r, happly, _, htest⟩ := apply_of_selects_all hparse hfound hall hclears
  rw [Bool.and_eq_true, decide_eq_true_eq] at htest
  have hone : (select found).selected.length = 1 := by
    rw [← List.length_map, hkeys]
    rfl
  have hnone : ∀ g ∈ r.remaining, g.fixAvailable = false := by simpa using htest.2
  exact ⟨unit, found, r, hparse, hfound, hone, hclean, happly, htest.1,
    (second_pass_of_clean hfound hclean happly).2.2.mpr hnone⟩

/-- A position behind a value that looks ahead of another position. -/
def aheadOfPositionText : String :=
  "signal_position = sig
alpha = signal_position.shift(-1)
pos = alpha
"

/-- The text after the first pass. -/
def aheadOfLaggedText : String :=
  "signal_position = sig.shift(1)\nalpha = signal_position.shift(-1)\npos = alpha\n"

/-- The text after the second pass. -/
def twiceLaggedText : String :=
  "signal_position = sig.shift(1)\nalpha = signal_position.shift(-1)\npos = alpha.shift(1)\n"

/-- The first pass lags the value that the last position comes from, so that a shift would lag that
position by a bar: the second pass mends it. -/
theorem second_pass_mends :
    ∃ unit found r p, SourceUnit.parse aheadOfPositionText "ahead" = .ok unit ∧
      analyze .standard unit = .ok found ∧ (select found).deferred = [] ∧
      Fix.apply .standard unit (select found).selected = .ok r ∧
      (∃ g ∈ r.remaining, g.fixAvailable = true) ∧
      pass .standard unit.name r.unit.text = .ok p ∧ p.selected ≠ [] ∧ p.fixed ≠ r.unit.text := by
  have hfacts : auditsTo .standard aheadOfPositionText "ahead" (fun _ found =>
      selectsAll aheadOfPositionText aheadOfLaggedText found [⟨"LB001", ⟨1, 1⟩⟩]) = true := by
    decide +kernel
  have hfirst : clears .standard aheadOfLaggedText "ahead" [⟨"LB001", ⟨1, 1⟩⟩] (fun _ rest =>
      selectsAll aheadOfLaggedText twiceLaggedText rest [⟨"LB001", ⟨3, 3⟩⟩]) = true := by
    decide +kernel
  have hsecond : clears .standard twiceLaggedText "ahead" [⟨"LB001", ⟨3, 3⟩⟩] (fun _ _ => true) =
      true := by
    decide +kernel
  obtain ⟨unit, found, hparse, hfound, hall⟩ := audits_to_iff.mp hfacts
  obtain ⟨hclean, _, r, happly, hnext, hall'⟩ := apply_of_selects_all hparse hfound hall hfirst
  obtain ⟨hparse', hfound'⟩ := parse_of_apply happly
  obtain ⟨_, hkeys, r', hagain, _⟩ := apply_of_selects_all hnext hfound' hall' hsecond
  -- What is selected offers a fix, and a fix that stands has rewritten the text.
  obtain ⟨g, hg, _⟩ := List.exists_of_mem_map (hkeys ▸ List.mem_singleton_self _)
  have hreported := (selected_sublist [] r.remaining).subset hg
  have hoffered := fix_available_of_mem_selected [] r.remaining g hg
  exact ⟨unit, found, r, ⟨r'.unit.text, (select r.remaining).selected, r'.remaining⟩, hparse, hfound,
    hclean, happly, ⟨g, hreported, hoffered⟩,
    pass_eq_ok.mpr ⟨r.unit, r.remaining, r', hparse', hfound', hagain, rfl⟩,
    List.ne_nil_of_mem hg, text_of_apply_ne hparse' hfound' hg hreported hagain⟩

end BacktestAudit.CommandLine.Fix
