import BacktestAudit.Data.Outcome
import BacktestAudit.Proofs.Fix.Outcome
import BacktestAudit.Proofs.Flow.ReadPlaces

/-!
What reported findings offer. Their edits are made of what the graph of the unit records: shifts
behind reads of one assignment, a word for the value of an argument by name, or a fill that is called
by its method.
-/
namespace BacktestAudit.Fix
open BacktestAudit.Data.Outcome BacktestAudit.Source BacktestAudit.Syntax BacktestAudit.Flow
  BacktestAudit.Rules BacktestAudit.Text
set_option autoImplicit false

theorem mem_foldl {α β : Type} {step : List β → α → List β} {R : α → β → Prop}
    (h : ∀ acc a b, b ∈ step acc a → b ∈ acc ∨ R a b) {as : List α} {acc : List β} {b : β}
    (hb : b ∈ as.foldl step acc) : b ∈ acc ∨ ∃ a ∈ as, R a b := by
  induction as generalizing acc with
  | nil => exact .inl hb
  | cons a as ih =>
    rcases ih hb with hb | ⟨c, hc, hcb⟩
    · exact (h acc a b hb).imp_right fun hab => ⟨a, List.mem_cons_self .., hab⟩
    · exact .inr ⟨c, List.mem_cons_of_mem a hc, hcb⟩

/-! ## Shifts -/

theorem mem_set_edit {es : List Edit} {e d : Edit} (h : d ∈ setEdit es e) : d ∈ es ∨ d = e := by
  induction es with
  | nil => exact .inr (List.mem_singleton.mp h)
  | cons c cs ih =>
    unfold setEdit at h
    split at h
    · exact (List.mem_cons.mp h).symm.imp_left (List.mem_cons_of_mem c)
    · rcases List.mem_cons.mp h with rfl | h
      · exact .inl (List.mem_cons_self ..)
      · exact (ih h).imp_left (List.mem_cons_of_mem c)

theorem mem_one_for_span {es : List Edit} {d : Edit} (h : d ∈ oneForSpan es) : d ∈ es := by
  have hset : d ∈ es.foldl setEdit [] := mem_sort_by.mp h
  have hstep : ∀ (acc : List Edit) (e d : Edit), d ∈ setEdit acc e → d ∈ acc ∨ d = e :=
    fun _ _ _ => mem_set_edit
  rcases mem_foldl hstep hset with hnil | ⟨e, he, rfl⟩
  · nomatch hnil
  · exact he

theorem set_edit_spans {es : List Edit} (h : es.Pairwise fun a b => a.span ≠ b.span) (e : Edit) :
    (setEdit es e).Pairwise fun a b => a.span ≠ b.span := by
  induction es with
  | nil => exact List.pairwise_singleton ..
  | cons c cs ih =>
    obtain ⟨hc, hcs⟩ := List.pairwise_cons.mp h
    unfold setEdit
    split
    · next heq => exact List.pairwise_cons.mpr ⟨heq ▸ hc, hcs⟩
    · next hne =>
      refine List.pairwise_cons.mpr ⟨fun d hd => ?_, ih hcs⟩
      rcases mem_set_edit hd with hd | rfl
      · exact hc d hd
      · exact hne

theorem shift_edits_spans (text : String) (reads : List Read) :
    (shiftEdits text reads).Pairwise fun a b => a.span ≠ b.span := by
  have hfold : ∀ (es acc : List Edit), acc.Pairwise (fun a b => a.span ≠ b.span) →
      (es.foldl setEdit acc).Pairwise fun a b => a.span ≠ b.span := by
    intro es
    induction es with
    | nil => exact fun _ h => h
    | cons e es ih => exact fun acc h => ih _ (set_edit_spans h e)
  unfold shiftEdits
  split
  · exact (perm_sort_by _ _).symm.pairwise (hfold _ [] .nil) Ne.symm
  · exact .nil

theorem mem_shift_edits {text : String} {reads : List Read} {e : Edit}
    (h : e ∈ shiftEdits text reads) :
    ∃ r ∈ reads, e = ⟨r.span, segment text r.span ++ ".shift(1)"⟩ := by
  unfold shiftEdits at h
  split at h
  · obtain ⟨r, hr, rfl⟩ := List.mem_map.mp (mem_one_for_span h)
    exact ⟨r, hr, rfl⟩
  · nomatch h

/-! ## Values of arguments -/

section Arguments
variable {arguments : List Expr}

theorem mem_set_name {α : Type} {l : List (String × α)} {key : String} {w : α} {c : String × α}
    (h : c ∈ setName l key w) : c ∈ l ∨ c = (key, w) := by
  induction l with
  | nil => exact .inr (List.mem_singleton.mp h)
  | cons d ds ih =>
    unfold setName at h
    split at h
    · next hkey =>
      rcases List.mem_cons.mp h with rfl | h
      · exact .inr (Prod.ext hkey rfl)
      · exact .inl (List.mem_cons_of_mem d h)
    · rcases List.mem_cons.mp h with rfl | h
      · exact .inl (List.mem_cons_self ..)
      · exact (ih h).imp_left (List.mem_cons_of_mem d)

theorem mem_keyword_spans {c : String × Span} (h : c ∈ keywordSpans arguments) :
    ∃ y v, Expr.keyword y (some c.1) v ∈ arguments ∧ c.2 = v.span := by
  unfold keywordSpans at h
  refine (mem_foldl (R := fun a c => ∃ y v, a = .keyword y (some c.1) v ∧ c.2 = v.span)
    (fun acc a c hc => ?_) h).elim (fun hnil => absurd hnil List.not_mem_nil) ?_
  · split at hc
    · next y name v =>
      refine (mem_set_name hc).imp_right ?_
      rintro rfl
      exact ⟨y, v, rfl, rfl⟩
    · exact .inl hc
  · rintro ⟨_, ha, y, v, rfl, hspan⟩
    exact ⟨y, v, ha, hspan⟩

theorem mem_literal_keywords {c : String × Literal} (h : c ∈ literalKeywords arguments) :
    ∃ y v, Expr.keyword y (some c.1) v ∈ arguments ∧ v.literal? = some c.2 := by
  unfold literalKeywords at h
  refine (mem_foldl (R := fun a c => ∃ y v, a = .keyword y (some c.1) v ∧ v.literal? = some c.2)
    (fun acc a c hc => ?_) h).elim (fun hnil => absurd hnil List.not_mem_nil) ?_
  · split at hc
    · next y name v =>
      split at hc
      · next l hl =>
        refine (mem_set_name hc).imp_right ?_
        rintro rfl
        exact ⟨y, v, rfl, hl⟩
      · exact .inl hc
    · exact .inl hc
  · rintro ⟨_, ha, y, v, rfl, hliteral⟩
    exact ⟨y, v, ha, hliteral⟩

theorem mem_of_lookup {α : Type} {l : List (String × α)} {key : String} {w : α}
    (h : l.lookup key = some w) : (key, w) ∈ l := by
  obtain ⟨l₁, l₂, rfl, _⟩ := List.lookup_eq_some_iff.mp h
  simp

end Arguments

theorem mem_keyword_edit {site : CallSite} {name : String} {replacement : Span → String} {e : Edit}
    (he : e ∈ keywordEdit site name replacement) :
    site.keywordSpans.lookup name = some e.span ∧ e.replacement = replacement e.span := by
  unfold keywordEdit at he
  rw [Option.mem_toList, Option.map_eq_some_iff] at he
  obtain ⟨span, hlookup, rfl⟩ := he
  exact ⟨hlookup, rfl⟩

theorem keyword_edit_spans (site : CallSite) (name : String) (replacement : Span → String)
    {R : Edit → Edit → Prop} : (keywordEdit site name replacement).Pairwise R := by
  unfold keywordEdit
  cases site.keywordSpans.lookup name with
  | none => exact .nil
  | some span => exact List.pairwise_singleton ..

/-! ## Fills -/

/-- What is removed with a span: when it holds line breaks, the indent before it as well. -/
def removal (text : String) (span : Span) : Span :=
  if (segment text span).toList.any isBreak then
    ⟨backOverIndent (encode text) span.start.toNat, span.stop⟩
  else span

/-- A fill is mended by a new name and by the removal of the argument that named its method. -/
theorem fill_edits_eq (text : String) (site : CallSite) : fillEdits text site = [] ∨
    ∃ nameSpan index own, site.nameSpan = some nameSpan ∧
      site.arguments[index]? = some (.named "method", own) ∧
      fillEdits text site = [⟨nameSpan, "ffill"⟩,
        ⟨removal text (removedSpan site.arguments index site.span own),
          lineStructure
            (segment text (removal text (removedSpan site.arguments index site.span own)))⟩] := by
  unfold fillEdits
  simp only
  split
  · next nameSpan index hname hindex =>
    split
    · exact .inl rfl
    · split
      · next key own hget =>
        have hkey : key = .named "method" := by
          obtain ⟨hlt, htest, _⟩ := List.findIdx?_eq_some_iff_getElem.mp hindex
          obtain ⟨_, hthere⟩ := List.getElem?_eq_some_iff.mp hget
          rw [hthere] at htest
          exact of_decide_eq_true htest
        subst hkey
        exact .inr ⟨nameSpan, index, own, hname, hget, rfl⟩
      · exact .inl rfl
  · exact .inl rfl

/-! ## Findings -/

/-- The edits that findings of a rule on a unit may have. -/
inductive Offers (unit : SourceUnit) : Rules.Rule → List Edit → Prop
  | nothing {r : Rules.Rule} : Offers unit r []
  | shift {a : Assignment} {reads : List Read}
      (ha : a ∈ (Graph.ofUnit unit).assignments.toList) (hreads : reads ⊆ a.reads) :
      Offers unit .unshiftedSignal (shiftEdits unit.text reads)
  | label {site : CallSite} (hsite : site ∈ (Graph.ofUnit unit).calls) :
      Offers unit .misalignedResample
        (keywordEdit site "label" fun span => requote (segment unit.text span) "right")
  | window {site : CallSite} (hsite : site ∈ (Graph.ofUnit unit).calls)
      (hcenter : isTrueLiteral (site.keyword? "center") = true) :
      Offers unit .centeredWindow (keywordEdit site "center" fun _ => "False")
  | fill {site : CallSite} (hsite : site ∈ (Graph.ofUnit unit).calls) :
      Offers unit .deprecatedFill (fillEdits unit.text site)

theorem mem_of_mem_filterAuxM {α ε : Type} {f : α → Except ε Bool} {as acc bs : List α}
    (h : List.filterAuxM f as acc = .ok bs) {b : α} (hb : b ∈ bs) : b ∈ as ∨ b ∈ acc := by
  induction as generalizing acc with
  | nil => exact .inr (Except.ok.inj h ▸ hb)
  | cons a as ih =>
    obtain ⟨kept, _, h⟩ := Data.Outcome.bind_eq_ok.mp h
    rcases ih h with hlater | hearlier
    · exact .inl (List.mem_cons_of_mem a hlater)
    · cases kept with
      | false => exact .inr hearlier
      | true =>
        rcases List.mem_cons.mp hearlier with rfl | hearlier
        · exact .inl (List.mem_cons_self ..)
        · exact .inr hearlier

theorem mem_of_mem_filterM {α ε : Type} {f : α → Except ε Bool} {as bs : List α}
    (h : as.filterM f = .ok bs) {b : α} (hb : b ∈ bs) : b ∈ as := by
  obtain ⟨cs, hcs, hreverse⟩ := Data.Outcome.bind_eq_ok.mp h
  obtain rfl := Except.ok.inj hreverse
  rcases mem_of_mem_filterAuxM hcs (List.mem_reverse.mp hb) with hmem | hnil
  · exact hmem
  · nomatch hnil

theorem edits_of_future_read {r : Read} {m : Match} (h : futureRead r = some m) : m.edits = [] := by
  unfold futureRead at h
  split at h
  · split at h
    · exact Option.some.inj h ▸ rfl
    · nomatch h
  · nomatch h

theorem edits_of_unfixable {ctx : Context} {g : Graph} {r : Rules.Rule} (hr : r.isFixable = false)
    {ms : List Match} (hms : r.findMatches ctx g = .ok ms) {m : Match} (hm : m ∈ ms) :
    m.edits = [] := by
  cases r with
  | deprecatedFill | unshiftedSignal | misalignedResample | centeredWindow => nomatch hr
  | backfill =>
    obtain ⟨calls, _, hmap⟩ := Data.Outcome.bind_eq_ok.mp hms
    obtain rfl := Except.ok.inj hmap
    obtain ⟨site, _, rfl⟩ := List.mem_map.mp hm
    rfl
  | forwardReference =>
    obtain rfl := Except.ok.inj hms
    rcases List.mem_append.mp hm with hread | hindex
    · obtain ⟨r, _, heq⟩ := List.mem_filterMap.mp hread
      exact edits_of_future_read heq
    · obtain ⟨f, _, rfl⟩ := List.mem_map.mp hindex
      rfl
  | globalStatistic | fitOnFullRange =>
    obtain rfl := Except.ok.inj hms
    obtain ⟨site, _, heq⟩ := List.mem_filterMap.mp hm
    split at heq
    · split at heq
      · nomatch heq
      · exact Option.some.inj heq ▸ rfl
    · nomatch heq
  | dynamicCode | credential =>
    obtain rfl := Except.ok.inj hms
    obtain ⟨site, _, heq⟩ := List.mem_filterMap.mp hm
    split at heq
    · exact Option.some.inj heq ▸ rfl
    · nomatch heq

theorem offers_of_match {unit : SourceUnit} {ctx : Context} {r : Rules.Rule} {ms : List Match}
    (hms : r.findMatches ctx (Graph.ofUnit unit) = .ok ms) {m : Match} (hm : m ∈ ms) :
    Offers unit r m.edits := by
  cases r with
  | deprecatedFill =>
    obtain ⟨calls, hcalls, hmap⟩ := Data.Outcome.bind_eq_ok.mp hms
    obtain rfl := Except.ok.inj hmap
    obtain ⟨site, hsite, rfl⟩ := List.mem_map.mp hm
    rw [unit_of_graph]
    exact .fill (mem_of_mem_filterM hcalls hsite)
  | unshiftedSignal =>
    obtain rfl := Except.ok.inj hms
    obtain ⟨a, ha, heq⟩ := List.mem_filterMap.mp hm
    split at heq
    · split at heq
      · nomatch heq
      · obtain rfl := Option.some.inj heq
        rw [unit_of_graph]
        exact .shift ha fun _ hr => (List.mem_filter.mp hr).1
    · nomatch heq
  | misalignedResample =>
    obtain rfl := Except.ok.inj hms
    obtain ⟨site, hsite, heq⟩ := List.mem_filterMap.mp hm
    split at heq
    · obtain rfl := Option.some.inj heq
      rw [unit_of_graph]
      exact .label hsite
    · nomatch heq
  | centeredWindow =>
    obtain rfl := Except.ok.inj hms
    obtain ⟨site, hsite, heq⟩ := List.mem_filterMap.mp hm
    split at heq
    · next htest =>
      obtain rfl := Option.some.inj heq
      exact .window hsite (Bool.and_eq_true_iff.mp htest).2
    · nomatch heq
  | globalStatistic | fitOnFullRange | forwardReference | backfill | dynamicCode | credential =>
    rw [edits_of_unfixable rfl hms hm]
    exact .nothing

theorem offers_of_mem {s : Settings} {unit : SourceUnit} {fs : List Finding}
    (hfs : analyze s unit = .ok fs) {f : Finding} (hf : f ∈ fs) :
    ∃ r : Rules.Rule, f.rule = r.code ∧ Offers unit r f.edits := by
  obtain ⟨r, ms, m, hms, hm, rfl⟩ := exists_match_of_mem hfs hf
  exact ⟨r, rfl, offers_of_match hms hm⟩

/-- What is recorded of a call, as far as edits are made of it. -/
structure RecordOf (site : CallSite) (x : Extent) (func : Expr) (arguments : List Expr) : Prop where
  extent : site.extent = x
  spans : site.arguments = argumentSpans arguments
  values : site.keywordSpans = keywordSpans arguments
  literals : site.keywords = literalKeywords arguments
  name : ∀ span, site.nameSpan = some span →
    ∃ y v attr, func = .member y v attr ∧ span = ⟨y.stop - attr.utf8ByteSize, y.stop⟩

theorem record_of_records {imported : List String} {site : CallSite} {c : Expr}
    (h : Records imported site c) :
    ∃ x func arguments, c = .call x func arguments ∧ RecordOf site x func arguments := by
  cases h with
  | intro x func arguments receiverReads argReads assignment =>
    refine ⟨x, func, arguments, rfl, rfl, rfl, rfl, rfl, fun span hspan => ?_⟩
    simp only [callSite] at hspan
    split at hspan
    · cases hspan
    · next hmethod =>
      obtain rfl := Option.some.inj hspan
      cases func with
      | member y v attr => exact ⟨y, v, attr, rfl, rfl⟩
      | _ => exact absurd rfl hmethod

/-- The calls that a graph records are placed calls of the unit, which its text shows. -/
theorem call_of_site {text name : String} {unit : SourceUnit}
    (h : SourceUnit.parse text name = .ok unit) {site : CallSite}
    (hsite : site ∈ (Graph.ofUnit unit).calls) :
    ∃ x func arguments, RecordOf site x func arguments ∧
      (Expr.call x func arguments).Placed ∧ (Expr.call x func arguments).Shown text ∧
      x.stop ≤ (encode text).length ∧
      ∃ e ∈ Stmt.expressionsOfAll unit.statements, (Expr.call x func arguments).Occurs e := by
  obtain ⟨c, hc, hrecords⟩ := exists_right_of_mem (unit_records unit) hsite
  obtain ⟨x, func, arguments, rfl, hrecord⟩ := record_of_records hrecords
  have hscanned := (mem_calls_of_unit (SourceUnit.statements_proper h)).mpr (.inr hc)
  obtain ⟨e, he, hc⟩ := List.mem_flatMap.mp hscanned
  obtain ⟨hplaced, hstop⟩ := (SourceUnit.expressions_placed h).1 e he
  have hoccurs := hplaced.occurs_of_calls hc
  obtain ⟨hplaced', _, hle⟩ := hplaced.of_occurs hoccurs
  have hshown := (SourceUnit.expressions_shown h e he).of_occurs hoccurs
  exact ⟨x, func, arguments, hrecord, hplaced', hshown, hle.trans hstop, e, he, hoccurs⟩

/-- The expression of a read is a placed one of the unit, which its text shows. -/
theorem expression_of_read {text name : String} {unit : SourceUnit}
    (h : SourceUnit.parse text name = .ok unit) {a : Assignment}
    (ha : a ∈ (Graph.ofUnit unit).assignments.toList) {r : Read} (hr : r ∈ a.reads) :
    ∃ e : Expr, r.extent = e.extent ∧ e.Placed ∧ e.Shown text := by
  obtain ⟨e, he, d, hd, hextent⟩ := unit_reads_in unit ha hr
  obtain ⟨hplaced, _⟩ := (SourceUnit.expressions_placed h).1 e he
  exact ⟨d, hextent, (hplaced.of_occurs hd).1, (SourceUnit.expressions_shown h e he).of_occurs hd⟩

end BacktestAudit.Fix
