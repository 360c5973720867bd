import BacktestAudit.Proofs.Fix.Offered
import BacktestAudit.Proofs.Fix.Weave

/-!
Where edits are. The edits of a reported finding replace bytes of the text that it was reported of:
reads, values and names of calls, and the arguments that a call can do without.
-/
namespace BacktestAudit.Fix
open BacktestAudit.Source BacktestAudit.Syntax BacktestAudit.Flow BacktestAudit.Rules
  BacktestAudit.Text
set_option autoImplicit false

/-! ## Spans of syntax -/

theorem fits_of_extent {length : Nat} {x : Extent} (hlt : x.start < x.stop)
    (hle : x.stop ≤ length) : Fits length x.span :=
  ⟨Int.natCast_nonneg _, Int.ofNat_lt.mpr hlt, Int.ofNat_le.mpr hle⟩

theorem Fits.mono {length length' : Nat} {s : Span} (h : Fits length s) (hle : length ≤ length') :
    Fits length' s :=
  ⟨h.nonneg, h.start_lt, Int.le_trans h.stop_le (Int.ofNat_le.mpr hle)⟩

/-! ## Calls -/

section Calls
variable {x : Extent} {func : Expr} {arguments : List Expr}

theorem mem_argument_spans (h : (Expr.call x func arguments).Placed) {key : ArgumentKey}
    {span : Span} (hmem : (key, span) ∈ argumentSpans arguments) : Fits x.stop span ∧
      ∀ name, key = .named name → span.stop < x.stop := by
  obtain ⟨a, ha, heq⟩ := List.mem_map.mp (mem_sort_by.mp hmem)
  obtain ⟨rfl, rfl⟩ := Prod.mk.inj heq
  have hchild : a ∈ (Expr.call x func arguments).children := List.mem_cons_of_mem func ha
  refine ⟨fits_of_extent (h.child hchild).start_lt (h.inside hchild).2, fun name hname => ?_⟩
  have hkeyword : a.isKeyword = true := by
    cases a with
    | keyword y name v => rfl
    | _ => nomatch hname
  exact Int.ofNat_lt.mpr (h.fitted.2.1 a ha hkeyword)

theorem argument_spans_in_order (h : (Expr.call x func arguments).Placed) :
    (argumentSpans arguments).Pairwise (fun a b => a.2.stop ≤ b.2.start) := by
  have hsorted : (argumentSpans arguments).Pairwise
      (fun a b => decide (a.2.start ≤ b.2.start) = true) := by
    refine pairwise_sort_by (fun a b c hab hbc => ?_) (fun a b => ?_) _
    · simp only [decide_eq_true_eq] at *
      omega
    · simp only [Bool.or_eq_true, decide_eq_true_eq]
      omega
  have hapart : (argumentSpans arguments).Pairwise
      (fun a b => a.2.stop ≤ b.2.start ∨ b.2.stop ≤ a.2.start) := by
    refine (perm_sort_by _ _).symm.pairwise (List.pairwise_map.mpr ?_) Or.symm
    exact (List.pairwise_cons.mp h.apart).2.imp fun hab =>
      hab.imp Int.ofNat_le.mpr Int.ofNat_le.mpr
  refine (hsorted.and hapart).imp_of_mem fun {a b} ha hb hab => ?_
  have hle := of_decide_eq_true hab.1
  have hfits := (mem_argument_spans h ha).1.start_lt
  have hfits' := (mem_argument_spans h hb).1.start_lt
  rcases hab.2 with hbefore | hbefore
  · exact hbefore
  · omega

theorem name_span_fits (h : (Expr.call x func arguments).Placed) {site : CallSite}
    (hsite : RecordOf site x func arguments) {span : Span} (hspan : site.nameSpan = some span) :
    Fits func.extent.stop span := by
  obtain ⟨y, v, attr, rfl, rfl⟩ := hsite.name span hspan
  have hfitted := (h.child (List.mem_cons_self ..)).fitted
  simp only [Expr.Fitted, Expr.extent] at hfitted ⊢
  refine ⟨?_, ?_, ?_⟩ <;> dsimp only <;> omega

theorem callee_stop_lt (h : (Expr.call x func arguments).Placed) {name : String} {own : Span}
    (hmem : (.named name, own) ∈ argumentSpans arguments) : func.extent.stop < x.stop := by
  obtain ⟨a, ha, heq⟩ := List.mem_map.mp (mem_sort_by.mp hmem)
  obtain ⟨_, rfl⟩ := Prod.mk.inj heq
  have hafter := h.fitted.2.2 a ha
  have hlt := (h.child (List.mem_cons_of_mem func ha)).start_lt
  have hlast := (mem_argument_spans h hmem).2 name rfl
  simp only [Expr.span, Extent.span] at hlast
  omega

theorem related_at {α : Type} {R : α → α → Prop} {as : List α} (h : as.Pairwise R) {i j : Nat}
    (hij : i < j) {a b : α} (ha : as[i]? = some a) (hb : as[j]? = some b) : R a b := by
  obtain ⟨hi, rfl⟩ := List.getElem?_eq_some_iff.mp ha
  obtain ⟨hj, rfl⟩ := List.getElem?_eq_some_iff.mp hb
  exact List.pairwise_iff_getElem.mp h i j hi hj hij

theorem removed_span_fits (h : (Expr.call x func arguments).Placed) {index : Nat} {name : String}
    {own : Span} (hget : (argumentSpans arguments)[index]? = some (.named name, own)) :
    Fits (x.stop - 1) (removedSpan (argumentSpans arguments) index x.span own) := by
  obtain ⟨hfits, hnamed⟩ := mem_argument_spans h (List.mem_of_getElem? hget)
  have hlast := hnamed name rfl
  have horder := argument_spans_in_order h
  have hnonneg := hfits.nonneg
  have hstart := hfits.start_lt
  unfold removedSpan
  split
  · next key next hnext =>
    have hafter : own.stop ≤ next.start := related_at horder (Nat.lt_succ_self index) hget hnext
    have hnextFits := (mem_argument_spans h (List.mem_of_getElem? hnext)).1
    have hnextStart := hnextFits.start_lt
    exact ⟨hnonneg, by dsimp only; omega, by have := hnextFits.stop_le; dsimp only; omega⟩
  · split
    · exact ⟨hnonneg, by simp only [Extent.span]; omega, by simp only [Extent.span]; omega⟩
    · next k _ =>
      split
      · next key previous hprevious =>
        have hbefore : previous.stop ≤ own.start :=
          related_at horder (Nat.lt_succ_self k) hprevious hget
        have hpreviousFits := (mem_argument_spans h (List.mem_of_getElem? hprevious)).1
        have hpreviousNonneg := hpreviousFits.nonneg
        have hpreviousStart := hpreviousFits.start_lt
        exact ⟨by dsimp only; omega, by dsimp only; omega, by dsimp only; omega⟩
      · exact ⟨hnonneg, hstart, by dsimp only; omega⟩

theorem fits_back_over_indent {length : Nat} {bytes : List UInt8} {span : Span}
    (h : Fits length span) : Fits length ⟨backOverIndent bytes span.start.toNat, span.stop⟩ := by
  have hnonneg := h.nonneg
  have hstart := h.start_lt
  refine ⟨Int.natCast_nonneg _, ?_, h.stop_le⟩
  dsimp only [backOverIndent]
  omega

theorem fill_edits_fit (h : (Expr.call x func arguments).Placed) {site : CallSite}
    (hsite : RecordOf site x func arguments) {text : String} {e : Edit}
    (he : e ∈ fillEdits text site) : Fits (x.stop - 1) e.span := by
  rcases fill_edits_eq text site with heq | ⟨nameSpan, index, own, hname, hget, heq⟩
  · rw [heq] at he
    nomatch he
  · rw [hsite.spans] at hget
    have hremoved := removed_span_fits h hget
    rw [heq] at he
    rcases List.mem_cons.mp he with rfl | he
    · have hlt := callee_stop_lt h (List.mem_of_getElem? hget)
      exact (name_span_fits h hsite hname).mono (Nat.le_sub_one_of_lt hlt)
    · obtain rfl := List.mem_singleton.mp he
      rw [hsite.spans, CallSite.span, hsite.extent]
      simp only [removal]
      split
      · exact fits_back_over_indent hremoved
      · exact hremoved

theorem keyword_edit_fits (h : (Expr.call x func arguments).Placed) {site : CallSite}
    (hsite : RecordOf site x func arguments) {name : String} {replacement : Span → String}
    {e : Edit} (he : e ∈ keywordEdit site name replacement) : Fits x.stop e.span := by
  have hspans := mem_of_lookup (mem_keyword_edit he).1
  rw [hsite.values] at hspans
  obtain ⟨y, v, hargument, hspan⟩ := mem_keyword_spans hspans
  have hchild : Expr.keyword y (some name) v ∈ (Expr.call x func arguments).children :=
    List.mem_cons_of_mem func hargument
  have hinside := (h.inside hchild).2
  have hvalue : v ∈ (Expr.keyword y (some name) v).children := List.mem_singleton_self v
  have hinside' := ((h.child hchild).inside hvalue).2
  simp only at hspan
  rw [hspan]
  exact fits_of_extent ((h.child hchild).child hvalue).start_lt (Nat.le_trans hinside' hinside)

end Calls

/-! ## Findings -/

section Matches
variable {text name : String} {unit : SourceUnit} {e : Edit}

theorem offered_edits_fit (h : SourceUnit.parse text name = .ok unit) {r : Rules.Rule}
    {es : List Edit} (hes : Offers unit r es) (he : e ∈ es) : Fits (encode text).length e.span := by
  cases hes with
  | nothing => nomatch he
  | shift ha hreads =>
    obtain ⟨r, hr, rfl⟩ := mem_shift_edits he
    obtain ⟨hlt, hle⟩ := read_placed h ha (hreads hr)
    exact fits_of_extent hlt hle
  | label hsite | window hsite =>
    obtain ⟨x, func, arguments, hrecord, hplaced, _, hstop, _⟩ := call_of_site h hsite
    exact (keyword_edit_fits hplaced hrecord he).mono hstop
  | fill hsite =>
    obtain ⟨x, func, arguments, hrecord, hplaced, _, hstop, _⟩ := call_of_site h hsite
    exact (fill_edits_fit hplaced hrecord he).mono (Nat.le_trans (Nat.sub_le ..) hstop)

/-- The edits of a finding replace bytes of the text that it was reported of. -/
theorem edits_fit (h : SourceUnit.parse text name = .ok unit) {s : Settings} {fs : List Finding}
    (hfs : analyze s unit = .ok fs) {f : Finding} (hf : f ∈ fs) (he : e ∈ f.edits) :
    Fits (encode text).length e.span := by
  obtain ⟨r, _, hoffers⟩ := offers_of_mem hfs hf
  exact offered_edits_fit h hoffers he

end Matches

end BacktestAudit.Fix
