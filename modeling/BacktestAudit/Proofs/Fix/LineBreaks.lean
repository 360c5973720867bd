import BacktestAudit.Proofs.Fix.KeptLines
import BacktestAudit.Proofs.Fix.OnePass
import BacktestAudit.Proofs.Syntax.Literals

/-!
Which fixes keep the line breaks of what they replace. A shift always does, and so does the removal
of an argument unless it makes a pair of a carriage return and a line feed that stood apart; but a
label or the value of an argument is replaced by one word, on however many lines it was written. A
text with one style of breaks keeps its lines when each edit keeps its breaks.
-/
namespace BacktestAudit.Fix
open BacktestAudit.Source BacktestAudit.Syntax BacktestAudit.Flow BacktestAudit.Rules
  BacktestAudit.Text
set_option autoImplicit false

/-! ## The line structure of a removed text -/

theorem breaks_of_eq (cs : List Char) : breaksOf cs = (lineBreaks cs).flatMap LineBreak.chars := by
  fun_induction lineBreaks cs with
  | case1 rest ih => exact congrArg (['\r', '\n'] ++ ·) ih
  | case2 rest _ ih => exact congrArg (['\r'] ++ ·) ih
  | case3 rest ih => exact congrArg (['\n'] ++ ·) ih
  | case4 c rest _ hreturn hfeed ih =>
    have hbreak : ¬ isBreak c = true := Bool.eq_false_iff.mp (not_break_iff.mpr ⟨hreturn, hfeed⟩)
    rw [breaksOf, if_neg hbreak, ih]
  | case5 => rfl

/-- No carriage return comes right before a line feed among line breaks. -/
def Unpaired (bs : List LineBreak) : Prop :=
  bs.IsChain fun a b => ¬ (a = .carriageReturn ∧ b = .lineFeed)

theorem line_breaks_of_chars_iff (bs : List LineBreak) :
    lineBreaks (bs.flatMap LineBreak.chars) = bs ↔ Unpaired bs := by
  induction bs with
  | nil => exact ⟨fun _ => .nil, fun _ => rfl⟩
  | cons b bs ih =>
    by_cases hpair : b = .carriageReturn ∧ bs.head? = some .lineFeed
    · obtain ⟨rfl, hhead⟩ := hpair
      obtain ⟨more, rfl⟩ : ∃ more, bs = .lineFeed :: more := by
        cases bs with
        | nil => nomatch hhead
        | cons d more => exact ⟨more, by rw [Option.some.inj hhead]⟩
      constructor
      · intro heq
        nomatch (List.cons.inj heq).1
      · intro hchain
        exact absurd ⟨rfl, rfl⟩ ((List.isChain_cons.mp hchain).1 .lineFeed rfl)
    · have hparted : Parted b.chars (bs.flatMap LineBreak.chars) := by
        intro hlast hhead
        cases b with
        | lineFeed | pair => nomatch hlast
        | carriageReturn =>
          cases bs with
          | nil => nomatch hhead
          | cons d more =>
            cases d with
            | lineFeed => exact hpair ⟨rfl, rfl⟩
            | carriageReturn | pair => nomatch hhead
      have hone : lineBreaks b.chars = [b] := by cases b <;> rfl
      rw [List.flatMap_cons, line_breaks_append hparted, hone, List.singleton_append,
        List.cons.injEq, and_iff_right rfl, ih, Unpaired, Unpaired, List.isChain_cons]
      refine (and_iff_right fun d hd hboth => hpair ⟨hboth.1, ?_⟩).symm
      rw [hd, hboth.2]

theorem line_structure_breaks_iff (text : String) :
    lineBreaks (lineStructure text).toList = lineBreaks text.toList ↔
      Unpaired (lineBreaks text.toList) := by
  unfold lineStructure
  simp only
  split
  · obtain ⟨last, hlast⟩ : ∃ last, (pieces text.toList).getLast? = some last :=
      Option.ne_none_iff_exists'.mp
        (mt List.getLast?_eq_none_iff.mp (pieces_ne_nil text.toList))
    have hplain := not_break_of_piece _ last (List.mem_of_getLast? hlast)
    rw [hlast, Option.getD_some, String.toList_ofList, line_breaks_append_plain, breaks_of_eq,
      line_breaks_of_chars_iff]
    intro c hc
    split at hc
    · exact hplain c hc
    · nomatch hc
  · next hnone =>
    have hbreaks : lineBreaks text.toList = [] :=
      line_breaks_eq_nil_iff.mpr (Bool.eq_false_iff.mpr hnone)
    rw [hbreaks]
    exact ⟨fun _ => .nil, fun _ => rfl⟩

/-! ## Edits -/

/-- An edit has the line breaks of what it replaces. -/
def KeepsBreaks (text : String) (e : Edit) : Prop :=
  lineBreaks e.replacement.toList = lineBreaks (segment text e.span).toList

/-- When an edit that a rule offers has the line breaks of what it replaces. -/
def KeepsWhen (text : String) (e : Edit) : Rules.Rule → Prop
  | .misalignedResample | .centeredWindow => lineBreaks (segment text e.span).toList = []
  | .deprecatedFill => Unpaired (lineBreaks (segment text e.span).toList)
  | _ => True

instance (text : String) (e : Edit) : Decidable (KeepsBreaks text e) :=
  inferInstanceAs (Decidable (_ = _))

theorem shift_edit_keeps (text : String) (span : Span) :
    KeepsBreaks text ⟨span, segment text span ++ ".shift(1)"⟩ := by
  rw [KeepsBreaks, String.toList_append]
  exact line_breaks_append_plain _ (not_break_of_any (by decide))

theorem keeps_of_plain_iff {text : String} {e : Edit}
    (h : ∀ c ∈ e.replacement.toList, isBreak c = false) :
    KeepsBreaks text e ↔ lineBreaks (segment text e.span).toList = [] := by
  rw [KeepsBreaks, line_breaks_eq_nil h]
  exact eq_comm

theorem requote_eq (original value : String) :
    ∃ quote : Char, (quote = '"' ∨ quote = '\'') ∧
      (requote original value).toList = quote :: (value.toList ++ [quote]) := by
  unfold requote
  simp only
  split
  · exact ⟨'"', .inl rfl, by rw [String.toList_append, String.toList_append]; rfl⟩
  · exact ⟨'\'', .inr rfl, by rw [String.toList_append, String.toList_append]; rfl⟩

theorem not_break_of_requote (original : String) :
    ∀ c ∈ (requote original "right").toList, isBreak c = false := by
  obtain ⟨quote, hquote, heq⟩ := requote_eq original "right"
  rw [heq]
  rcases hquote with rfl | rfl <;> exact not_break_of_any (by decide)

/-! ## Arguments by name -/

/-- No argument is given twice by name. -/
def NamedOnce (arguments : List Expr) : Prop :=
  arguments.Pairwise fun a b => ∀ key, argumentKey a = .named key → argumentKey b ≠ .named key

/-- No call of a unit is given an argument twice by name. -/
def CallsNamedOnce (unit : SourceUnit) : Prop :=
  ∀ e ∈ Stmt.expressionsOfAll unit.statements, ∀ x func arguments,
    (Expr.call x func arguments).Occurs e → NamedOnce arguments

theorem NamedOnce.value_unique {arguments : List Expr} (h : NamedOnce arguments) {y z : Extent}
    {key : String} {v w : Expr} (hv : Expr.keyword y (some key) v ∈ arguments)
    (hw : Expr.keyword z (some key) w ∈ arguments) : v = w := by
  have hsymm : Std.Symm fun a b : Expr => ∀ key, argumentKey a = .named key →
      argumentKey b ≠ .named key := ⟨fun a b hab key hb ha => hab key ha hb⟩
  by_contra hne
  have hapart := List.Pairwise.forall h hv hw fun heq => hne (Expr.keyword.inj heq).2.2
  exact hapart key rfl rfl

section Calls
variable {text : String} {x : Extent} {func : Expr} {arguments : List Expr} {site : CallSite}

/-- The edits of a fill have the line breaks of what they replace, unless a pair comes of those. -/
theorem fill_edit_keeps_iff (h : (Expr.call x func arguments).Placed)
    (hshown : (Expr.call x func arguments).Shown text) (hsite : RecordOf site x func arguments)
    {e : Edit} (he : e ∈ fillEdits text site) :
    KeepsBreaks text e ↔ KeepsWhen text e .deprecatedFill := by
  rcases fill_edits_eq text site with heq | ⟨nameSpan, index, own, hname, _, heq⟩
  · rw [heq] at he
    nomatch he
  · rw [heq] at he
    rcases List.mem_cons.mp he with rfl | he
    · obtain ⟨a, cs, rfl, _, hstands, hword⟩ := name_span_stands h hshown hsite hname
      have hplain : lineBreaks (segment text ⟨a, func.extent.stop⟩).toList = [] := by
        rw [segment_of_stands_at hstands, String.toList_ofList]
        exact line_breaks_eq_nil fun c hc => (plain_of_word (hword c hc)).1
      have hfill : ∀ c ∈ "ffill".toList, isBreak c = false := not_break_of_any (by decide)
      rw [keeps_of_plain_iff hfill, KeepsWhen, hplain]
      exact ⟨fun _ => .nil, fun _ => rfl⟩
    · obtain rfl := List.mem_singleton.mp he
      simp only [KeepsBreaks, KeepsWhen]
      exact line_structure_breaks_iff _

/-- A truth value that is the only value of its argument is written on one line. -/
theorem window_edit_keeps (hshown : (Expr.call x func arguments).Shown text)
    (hsite : RecordOf site x func arguments) (honce : NamedOnce arguments)
    (hcenter : isTrueLiteral (site.keyword? "center") = true) {replacement : Span → String}
    {e : Edit} (he : e ∈ keywordEdit site "center" replacement) :
    lineBreaks (segment text e.span).toList = [] := by
  have hspans := mem_of_lookup (mem_keyword_edit he).1
  rw [hsite.values] at hspans
  obtain ⟨y, v, hargument, hspan⟩ := mem_keyword_spans hspans
  obtain ⟨z, w, hliteral, hvalue⟩ : ∃ z w, Expr.keyword z (some "center") w ∈ arguments ∧
      w.literal? = some (.bool true) := by
    unfold isTrueLiteral at hcenter
    split at hcenter
    · next b hkeyword =>
      subst hcenter
      have hmem := mem_of_lookup hkeyword
      rw [hsite.literals] at hmem
      exact mem_literal_keywords hmem
    · nomatch hcenter
  obtain rfl := honce.value_unique hargument hliteral
  obtain ⟨u, rfl⟩ := Expr.constant_of_bool hvalue
  have hshown' := (hshown.child (List.mem_cons_of_mem func hargument)).child
    (List.mem_singleton_self _)
  obtain ⟨cs, hstands, hplain⟩ := hshown'.truth_value
  simp only at hspan
  rw [hspan]
  change lineBreaks (segment text ⟨u.start, u.stop⟩).toList = []
  rw [segment_of_stands_at hstands, String.toList_ofList, line_breaks_eq_nil hplain]

end Calls

theorem offered_edit_keeps_iff {text name : String} {unit : SourceUnit}
    (h : SourceUnit.parse text name = .ok unit) {r : Rules.Rule} {es : List Edit}
    (hes : Offers unit r es) : ∀ e ∈ es, KeepsBreaks unit.text e ↔ KeepsWhen unit.text e r := by
  intro e he
  cases hes with
  | nothing => nomatch he
  | shift ha hreads =>
    obtain ⟨r, _, rfl⟩ := mem_shift_edits he
    exact iff_of_true (shift_edit_keeps unit.text r.span) trivial
  | label =>
    have hreplacement := (mem_keyword_edit he).2
    exact keeps_of_plain_iff (hreplacement ▸ not_break_of_requote _)
  | window =>
    have hreplacement := (mem_keyword_edit he).2
    exact keeps_of_plain_iff (hreplacement ▸ not_break_of_any (by decide))
  | fill hsite =>
    obtain ⟨x, func, arguments, hrecord, hplaced, hshown, _⟩ := call_of_site h hsite
    rw [(SourceUnit.parse_eq_ok h).1] at he ⊢
    exact fill_edit_keeps_iff hplaced hshown hrecord he

/-- A window is centered on one line when no call is given an argument twice. -/
theorem offered_window_keeps {text name : String} {unit : SourceUnit}
    (h : SourceUnit.parse text name = .ok unit) (honce : CallsNamedOnce unit) {es : List Edit}
    (hes : Offers unit .centeredWindow es) {e : Edit} (he : e ∈ es) :
    KeepsWhen unit.text e .centeredWindow := by
  cases hes with
  | nothing => nomatch he
  | window hsite hcenter =>
    obtain ⟨x, func, arguments, hrecord, _, hshown, _, d, hd, hoccurs⟩ := call_of_site h hsite
    rw [(SourceUnit.parse_eq_ok h).1]
    exact window_edit_keeps hshown hrecord (honce d hd x func arguments hoccurs) hcenter he

/-! ## Replacements -/

theorem alike_of_shift (cs : List Char) : Alike cs (cs ++ ".shift(1)".toList) where
  breaks := line_breaks_append_plain cs (not_break_of_any (by decide))
  head hhead := by
    cases cs with
    | nil => nomatch hhead
    | cons c cs => exact hhead
  last hlast := by
    rw [List.getLast?_append_of_ne_nil cs (by decide)] at hlast
    nomatch hlast
  empty hnil := (List.append_eq_nil_iff.mp hnil).1

theorem alike_of_plain {cs ds : List Char} (hne : ds ≠ []) (hds : ∀ c ∈ ds, isBreak c = false)
    (hbreaks : lineBreaks ds = lineBreaks cs) : Alike cs ds where
  breaks := hbreaks
  head hhead := nomatch hds '\n' (List.mem_of_head? hhead)
  last hlast := nomatch hds '\r' (List.mem_of_getLast? hlast)
  empty hnil := absurd hnil hne

theorem ends_line_of_plain {cs : List Char} (hne : cs ≠ []) (hcs : ∀ c ∈ cs, isBreak c = false) :
    endsLine cs = false := by
  rw [endsLine, List.getLast?_eq_some_getLast hne]
  exact hcs _ (List.getLast_mem hne)

/-- Edits that remove no argument end no line, and are like what they replace when they keep its
line breaks. -/
theorem offered_edit_alike {unit : SourceUnit} {r : Rules.Rule} {es : List Edit}
    (hes : Offers unit r es) (hr : r ≠ .deprecatedFill) {e : Edit} (he : e ∈ es) :
    endsLine e.replacement.toList = false ∧ (KeepsBreaks unit.text e →
      Alike (segment unit.text e.span).toList e.replacement.toList) := by
  have hplain : e.replacement.toList ≠ [] → (∀ c ∈ e.replacement.toList, isBreak c = false) →
      endsLine e.replacement.toList = false ∧ (KeepsBreaks unit.text e →
        Alike (segment unit.text e.span).toList e.replacement.toList) :=
    fun hne hall => ⟨ends_line_of_plain hne hall, alike_of_plain hne hall⟩
  cases hes with
  | nothing => nomatch he
  | shift ha hreads =>
    obtain ⟨r, _, rfl⟩ := mem_shift_edits he
    rw [String.toList_append]
    refine ⟨?_, fun _ => alike_of_shift _⟩
    rw [ends_line_append _ (by decide)]
    rfl
  | label =>
    have hreplacement := (mem_keyword_edit he).2
    obtain ⟨quote, _, heq⟩ := requote_eq (segment unit.text e.span) "right"
    refine hplain ?_ (hreplacement ▸ not_break_of_requote _)
    rw [hreplacement, heq]
    exact List.cons_ne_nil _ _
  | window =>
    have hreplacement := (mem_keyword_edit he).2
    exact hplain (hreplacement ▸ by decide) (hreplacement ▸ not_break_of_any (by decide))
  | fill => exact absurd rfl hr

/-- An edit at the end of a text does not end with a line break. -/
theorem offered_edit_end {text name : String} {unit : SourceUnit}
    (h : SourceUnit.parse text name = .ok unit) {r : Rules.Rule} {es : List Edit}
    (hes : Offers unit r es) {e : Edit} (he : e ∈ es) :
    e.span.stop < (encode unit.text).length ∨ endsLine e.replacement.toList = false := by
  by_cases hr : r = .deprecatedFill
  · subst hr
    cases hes with
    | nothing => nomatch he
    | fill hsite =>
      obtain ⟨x, func, arguments, hrecord, hplaced, _, hstop, _⟩ := call_of_site h hsite
      have hle := (fill_edits_fit hplaced hrecord he).stop_le
      have hlt : x.start < x.stop := hplaced.start_lt
      rw [(SourceUnit.parse_eq_ok h).1]
      exact .inl (by omega)
  · exact .inr (offered_edit_alike hes hr he).1

/-! ## One pass -/

/-- The line breaks of a text are not both single carriage returns and single line feeds. -/
def Unmixed (text : String) : Prop :=
  .carriageReturn ∉ lineBreaks text.toList ∨ .lineFeed ∉ lineBreaks text.toList

instance (text : String) : Decidable (Unmixed text) := inferInstanceAs (Decidable (_ ∨ _))

/-- Edits of one style of breaks, and edits that remove no argument, are made part by part. -/
theorem made_of_apply {text name : String} {unit : SourceUnit}
    (h : SourceUnit.parse text name = .ok unit) {s : Settings} {fs gs : List Finding}
    (hfs : analyze s unit = .ok fs) (hgs : gs ⊆ fs)
    (hkeeps : ∀ f ∈ gs, ∀ e ∈ f.edits, KeepsBreaks unit.text e)
    (hstyle : Unmixed unit.text ∨ ∀ f ∈ gs, f.rule ≠ Rule.deprecatedFill.code) {r : FixResult}
    (hr : apply s unit gs = .ok r) :
    ∃ R, Made unit.text r.unit.text R (gs.flatMap (·.edits)) := by
  obtain ⟨hseparate, heq⟩ := apply_made h hfs hgs hr
  have hbordered : ∀ f ∈ gs, ∀ e ∈ f.edits, Bordered unit.text e.span := by
    intro f hf e he
    obtain ⟨r, _, hoffers⟩ := offers_of_mem hfs (hgs hf)
    rw [(SourceUnit.parse_eq_ok h).1]
    exact offered_edits_bordered h hoffers e he
  have hmade : ∀ {R}, Joins unit.text R → (∀ f ∈ gs, ∀ e ∈ f.edits,
      R (segment unit.text e.span).toList e.replacement.toList) →
      Made unit.text r.unit.text R (gs.flatMap (·.edits)) := by
    intro R hR hreplaced
    refine ⟨hR, hseparate, fun e he => ?_, heq⟩
    obtain ⟨f, hf, he⟩ := List.mem_flatMap.mp he
    exact ⟨hbordered f hf e he, hreplaced f hf e he⟩
  have hwithout : ∀ b, b ≠ .pair → b ∉ lineBreaks unit.text.toList →
      Made unit.text r.unit.text (Without b) (gs.flatMap (·.edits)) := by
    refine fun b hb hnone => hmade (without_joins hb hnone) fun f hf e he => ⟨?_, hkeeps f hf e he⟩
    obtain ⟨start, stop, hspan, hlt, hstart, hstop⟩ := hbordered f hf e he
    obtain ⟨cs, hcs⟩ := stands_between hstart.boundary hstop.boundary (Nat.le_of_lt hlt)
    rw [hspan, segment_of_stands_at hcs, String.toList_ofList]
    exact not_mem_line_breaks hnone hstart.parted_at hstop.parted_at hcs
  rcases hstyle with (hnone | hnone) | hnofill
  · exact ⟨_, hwithout .carriageReturn nofun hnone⟩
  · exact ⟨_, hwithout .lineFeed nofun hnone⟩
  · refine ⟨_, hmade (alike_joins _) fun f hf e he => ?_⟩
    obtain ⟨r, hrule, hoffers⟩ := offers_of_mem hfs (hgs hf)
    have hne : r ≠ .deprecatedFill := fun heq => hnofill f hf (hrule.trans (congrArg _ heq))
    exact (offered_edit_alike hoffers hne he).2 (hkeeps f hf e he)

/-- An edit of a finding has the line breaks of what it replaces unless it replaces a label or the
value of an argument on more than one line, which takes an argument that is given twice in the case
of a centered window, or removes an argument with a carriage return right before a line feed. When
the edits of findings have the line breaks of what they replace, and no argument is removed from a
text that mixes carriage returns and line feeds, then the text with the fixes has the same line
breaks and as many lines, and each character outside the edits stays on its line. -/
theorem fixes_keep_lines {text name : String} {unit : SourceUnit}
    (h : SourceUnit.parse text name = .ok unit) {s : Settings} {fs : List Finding}
    (hfs : analyze s unit = .ok fs) :
    (∀ f ∈ fs, ∃ r : Rules.Rule, f.rule = r.code ∧ ∀ e ∈ f.edits,
      (KeepsBreaks unit.text e ↔ KeepsWhen unit.text e r) ∧
      (r = .centeredWindow → CallsNamedOnce unit → KeepsBreaks unit.text e)) ∧
    ∀ gs ⊆ fs, (∀ f ∈ gs, ∀ e ∈ f.edits, KeepsBreaks unit.text e) →
      (Unmixed unit.text ∨ ∀ f ∈ gs, f.rule ≠ Rule.deprecatedFill.code) →
      ∀ r, apply s unit gs = .ok r →
        lineBreaks r.unit.text.toList = lineBreaks unit.text.toList ∧
        (lines r.unit.text).length = (lines unit.text).length ∧
        ∀ (p q : Nat) (c : Char), StandsAt unit.text p q [c] → isBreak c = false →
          (∀ f ∈ gs, ∀ e ∈ f.edits, e.span.stop ≤ p ∨ (q : Int) ≤ e.span.start) →
          ∃ p' q' : Nat, (p' : Int) = p + displacement (gs.flatMap (·.edits)) p ∧
            StandsAt r.unit.text p' q' [c] ∧ lineAt r.unit.text p' = lineAt unit.text p := by
  constructor
  · intro f hf
    obtain ⟨r, hrule, hoffers⟩ := offers_of_mem hfs hf
    refine ⟨r, hrule, fun e he => ⟨offered_edit_keeps_iff h hoffers e he, ?_⟩⟩
    rintro rfl honce
    rw [offered_edit_keeps_iff h hoffers e he]
    exact offered_window_keeps h honce hoffers he
  · intro gs hgs hkeeps hstyle r hr
    obtain ⟨R, hmade⟩ := made_of_apply h hfs hgs hkeeps hstyle hr
    refine ⟨hmade.breaks, hmade.lines_length fun e he => ?_, fun p q c hc hbreak hout => ?_⟩
    · obtain ⟨f, hf, he⟩ := List.mem_flatMap.mp he
      obtain ⟨_, _, hoffers⟩ := offers_of_mem hfs (hgs hf)
      exact offered_edit_end h hoffers he
    · refine hmade.line_at hc hbreak fun e he => ?_
      obtain ⟨f, hf, he⟩ := List.mem_flatMap.mp he
      exact hout f hf e he

/-- The method of a fill on a line of its own, and a signal below it. -/
def fillAboveSignalText : String := "x = df.fillna(\n  method=\"pad\",\n)\npos = sig\n"

theorem fill_above_signal_keeps_lines :
    ∃ unit fs r, SourceUnit.parse fillAboveSignalText "fill" = .ok unit ∧
      analyze .standard unit = .ok fs ∧ fs.map (·.rule) = ["CQ001", "LB001"] ∧
      (∀ f ∈ fs, ∀ e ∈ f.edits, KeepsBreaks unit.text e) ∧ Unmixed unit.text ∧
      apply .standard unit fs = .ok r ∧ (lines r.unit.text).length = (lines unit.text).length := by
  have hfound : auditsTo .standard fillAboveSignalText "fill" (fun unit fs =>
      decide (fs.map Finding.key = [⟨"CQ001", ⟨1, 3⟩⟩, ⟨"LB001", ⟨4, 4⟩⟩]) && Unmixed unit.text &&
        fs.all (fun f => f.fixAvailable && f.edits.all fun e => KeepsBreaks unit.text e) &&
        splicesTo fillAboveSignalText "x = df.ffill(\n\n)\npos = sig.shift(1)\n"
          (taggedEdits fs)) = true := by
    decide +kernel
  have hmended : clears .standard "x = df.ffill(\n\n)\npos = sig.shift(1)\n" "fill"
      [⟨"CQ001", ⟨1, 3⟩⟩, ⟨"LB001", ⟨4, 4⟩⟩] (fun _ _ => true) = true := by
    decide +kernel
  obtain ⟨unit, fs, hparse, hfs, htest⟩ := audits_to_iff.mp hfound
  simp only [Bool.and_eq_true, decide_eq_true_eq, List.all_eq_true] at htest
  obtain ⟨⟨⟨hkeys, hstyle⟩, hfixes⟩, hsplice⟩ := htest
  have hrules : fs.map (·.rule) = ["CQ001", "LB001"] := by
    simpa [Finding.key, Function.comp_def] using congrArg (List.map FindingKey.rule) hkeys
  have hkeeps : ∀ f ∈ fs, ∀ e ∈ f.edits, KeepsBreaks unit.text e := fun f hf => (hfixes f hf).2
  have hcheck : ∀ f ∈ fs, checkTarget unit f = .ok () := fun f hf =>
    check_target_of_mem hfs hf (hfixes f hf).1
  obtain ⟨r, hr, _⟩ := apply_of_clears hparse hcheck hkeys hsplice hmended
  obtain ⟨_, hlines⟩ := fixes_keep_lines hparse hfs
  have hkept := hlines fs (List.Subset.refl fs) hkeeps (.inl hstyle) r hr
  exact ⟨unit, fs, r, hparse, hfs, hrules, hkeeps, hstyle, hr, hkept.2.1⟩

/-- A label that is written on two lines. -/
def labelOnTwoLinesText : String := "x = df.resample(\"D\", label=\"le\"\n\"ft\")\n"

theorem label_fix_drops_line :
    ∃ unit fs r, SourceUnit.parse labelOnTwoLinesText "label" = .ok unit ∧
      analyze .standard unit = .ok fs ∧ (∃ f ∈ fs, ∃ e ∈ f.edits, ¬ KeepsBreaks unit.text e) ∧
      apply .standard unit fs = .ok r ∧ (lines unit.text).length = 2 ∧
      (lines r.unit.text).length = 1 := by
  have hfound : auditsTo .standard labelOnTwoLinesText "label" (fun unit fs =>
      decide (fs.map Finding.key = [⟨"LB002", ⟨1, 2⟩⟩] ∧ (lines unit.text).length = 2) &&
        fs.all (·.fixAvailable) && (fs.any (·.edits.any fun e => ¬ KeepsBreaks unit.text e)) &&
        splicesTo labelOnTwoLinesText "x = df.resample(\"D\", label=\"right\")\n"
          (taggedEdits fs)) = true := by
    decide +kernel
  have hmended : clears .standard "x = df.resample(\"D\", label=\"right\")\n" "label"
      [⟨"LB002", ⟨1, 2⟩⟩] (fun u _ => (lines u.text).length = 1) = true := by
    decide +kernel
  obtain ⟨unit, fs, hparse, hfs, htest⟩ := audits_to_iff.mp hfound
  simp only [Bool.and_eq_true, decide_eq_true_eq, List.all_eq_true, List.any_eq_true] at htest
  obtain ⟨⟨⟨⟨hkeys, htwo⟩, hfixes⟩, hloses⟩, hsplice⟩ := htest
  have hcheck : ∀ f ∈ fs, checkTarget unit f = .ok () := fun f hf =>
    check_target_of_mem hfs hf (hfixes f hf)
  obtain ⟨r, hr, _, hone⟩ := apply_of_clears hparse hcheck hkeys hsplice hmended
  exact ⟨unit, fs, r, hparse, hfs, hloses, hr, htwo, of_decide_eq_true hone⟩

end BacktestAudit.Fix
