import BacktestAudit.Fix.Splice
import Mathlib.Algebra.BigOperators.Group.List.Basic
import Mathlib.Algebra.Ring.Int.Defs

/-!
Splicing as simultaneous replacement. Edits that lie in a text and come one after the other leave
the stretches between them; what the bytes become is these stretches with the replacements between
them, whatever the order in which the edits are made.
-/
namespace BacktestAudit.Fix
open BacktestAudit.Source BacktestAudit.Text
set_option autoImplicit false

/-! ## Stretches of bytes -/

/-- A span of some of the bytes of a length. -/
structure Fits (length : Nat) (s : Span) : Prop where
  nonneg : 0 ≤ s.start
  start_lt : s.start < s.stop
  stop_le : s.stop ≤ length

/-- A span inside bytes of a length, of some of them or of none. -/
structure Inside (length : Nat) (s : Span) : Prop where
  nonneg : 0 ≤ s.start
  start_le : s.start ≤ s.stop
  stop_le : s.stop ≤ length

theorem Fits.inside {length : Nat} {s : Span} (h : Fits length s) : Inside length s :=
  ⟨h.nonneg, Int.le_of_lt h.start_lt, h.stop_le⟩

def stretch (bytes : List UInt8) (a b : Int) : List UInt8 :=
  (bytes.drop a.toNat).take (b.toNat - a.toNat)

theorem stretch_zero (bytes : List UInt8) (b : Int) : stretch bytes 0 b = bytes.take b.toNat := by
  simp [stretch]

theorem stretch_append (bytes : List UInt8) {a b c : Int} (hab : a ≤ b)
    (hbc : b ≤ c) : stretch bytes a b ++ stretch bytes b c = stretch bytes a c := by
  have hsplit : c.toNat - a.toNat = (b.toNat - a.toNat) + (c.toNat - b.toNat) := by omega
  have hdrop : b.toNat = a.toNat + (b.toNat - a.toNat) := by omega
  unfold stretch
  rw [hsplit, List.take_add, List.drop_drop, ← hdrop]

theorem stretch_length (bytes : List UInt8) {a b : Int} (ha : 0 ≤ a) (hab : a ≤ b)
    (hb : b ≤ bytes.length) : ((stretch bytes a b).length : Int) = b - a := by
  unfold stretch
  rw [List.length_take, List.length_drop]
  omega

theorem replace_bytes_of_inside {bytes : List UInt8} {e : Edit} (h : Inside bytes.length e.span) :
    replaceBytes bytes e =
      bytes.take e.span.start.toNat ++ encode e.replacement ++ bytes.drop e.span.stop.toNat := by
  have hstart := h.nonneg
  have hstop := h.start_le
  have hlength := h.stop_le
  have hzero : clampIndex bytes.length 0 = 0 := by simp [clampIndex]
  have hclampStart : clampIndex bytes.length e.span.start = e.span.start.toNat := by
    unfold clampIndex
    split <;> omega
  have hclampStop : clampIndex bytes.length e.span.stop = e.span.stop.toNat := by
    unfold clampIndex
    split <;> omega
  simp only [replaceBytes, slice, sliceFrom, hzero, hclampStart, hclampStop, List.drop_zero,
    Nat.sub_zero]

/-! ## Edits in order -/

/-- Edits inside bytes of a length, each before the next. -/
structure InOrder (length : Nat) (es : List Edit) : Prop where
  fits : ∀ e ∈ es, Fits length e.span
  pairwise : es.Pairwise fun a b => a.span.stop ≤ b.span.start

theorem InOrder.tail {length : Nat} {e : Edit} {es : List Edit} (h : InOrder length (e :: es)) :
    InOrder length es :=
  ⟨fun d hd => h.fits d (List.mem_cons_of_mem e hd), (List.pairwise_cons.mp h.pairwise).2⟩

theorem InOrder.head_le {length : Nat} {e : Edit} {es : List Edit} (h : InOrder length (e :: es)) :
    ∀ d ∈ es, e.span.stop ≤ d.span.start :=
  (List.pairwise_cons.mp h.pairwise).1

/-- The bytes between two places with the edits made that come there in order. -/
def weave (bytes : List UInt8) (pos stop : Int) : List Edit → List UInt8
  | [] => stretch bytes pos stop
  | e :: es =>
    stretch bytes pos e.span.start ++ encode e.replacement ++ weave bytes e.span.stop stop es

/-- Made from the back to the front, edits in order leave the bytes before them and weave the
rest. -/
theorem splice_bytes_from {bytes : List UInt8} {es : List Edit}
    (hinside : ∀ e ∈ es, Inside bytes.length e.span)
    (horder : es.Pairwise fun a b => a.span.stop ≤ b.span.start)
    {pos : Int} (hpos : 0 ≤ pos) (hle : pos ≤ bytes.length) (hfirst : ∀ e ∈ es, pos ≤ e.span.start) :
    spliceBytes bytes es = bytes.take pos.toNat ++ weave bytes pos bytes.length es := by
  induction es generalizing pos with
  | nil =>
    have hall : stretch bytes pos bytes.length = bytes.drop pos.toNat := by
      unfold stretch
      rw [List.take_of_length_le (by rw [List.length_drop]; omega)]
    rw [weave, hall, List.take_append_drop]
    rfl
  | cons e es ih =>
    have he := hinside e (List.mem_cons_self ..)
    have hstart := he.nonneg
    have hstop := he.start_le
    have hlength := he.stop_le
    have hbefore := hfirst e (List.mem_cons_self ..)
    obtain ⟨hnext, htail⟩ := List.pairwise_cons.mp horder
    have hrest : spliceBytes bytes es = bytes.take e.span.stop.toNat ++
        weave bytes e.span.stop bytes.length es :=
      ih (fun d hd => hinside d (List.mem_cons_of_mem e hd)) htail (by omega) hlength hnext
    have htake : (bytes.take e.span.stop.toNat).length = e.span.stop.toNat := by
      rw [List.length_take]
      omega
    have hstays : Inside (spliceBytes bytes es).length e.span := by
      refine ⟨hstart, hstop, ?_⟩
      rw [hrest, List.length_append, htake]
      omega
    change replaceBytes (spliceBytes bytes es) e = _
    rw [replace_bytes_of_inside hstays, hrest, List.drop_append_of_le_length (by omega),
      List.take_append_of_le_length (by omega), List.take_take, List.drop_of_length_le (by omega),
      List.nil_append, weave]
    have hsplit := stretch_append bytes hpos hbefore
    rw [stretch_zero, stretch_zero] at hsplit
    rw [← List.append_assoc, ← List.append_assoc, hsplit, Nat.min_eq_left (by omega)]

/-- Splicing edits that come one after the other weaves them into the bytes. -/
theorem splice_bytes_of_inside {bytes : List UInt8} {es : List Edit}
    (hinside : ∀ e ∈ es, Inside bytes.length e.span)
    (horder : es.Pairwise fun a b => a.span.stop ≤ b.span.start) :
    spliceBytes bytes es = weave bytes 0 bytes.length es := by
  have hfrom := splice_bytes_from hinside horder (Int.le_refl 0) (by omega)
    fun e he => (hinside e he).nonneg
  simpa using hfrom

theorem splice_bytes_eq_weave {bytes : List UInt8} {es : List Edit}
    (h : InOrder bytes.length es) : spliceBytes bytes es = weave bytes 0 bytes.length es :=
  splice_bytes_of_inside (fun e he => (h.fits e he).inside) h.pairwise

/-! ## Edits before and behind a place -/

/-- Edits before a place and edits behind it are woven apart. -/
theorem weave_append (bytes : List UInt8) {length : Nat} {as bs : List Edit} {pos mid stop : Int}
    (has : InOrder length as) (hfirst : ∀ e ∈ as, pos ≤ e.span.start)
    (hlast : ∀ e ∈ as, e.span.stop ≤ mid) (hnext : ∀ e ∈ bs, mid ≤ e.span.start)
    (hpos : pos ≤ mid) (hstop : mid ≤ stop) :
    weave bytes pos stop (as ++ bs) = weave bytes pos mid as ++ weave bytes mid stop bs := by
  induction as generalizing pos with
  | nil =>
    cases bs with
    | nil => exact (stretch_append bytes hpos hstop).symm
    | cons b bs =>
      have hb := hnext b (List.mem_cons_self ..)
      rw [List.nil_append, weave, weave, weave, ← stretch_append bytes hpos hb]
      simp only [List.append_assoc]
  | cons a as ih =>
    have ha := hlast a (List.mem_cons_self ..)
    have hrest := ih has.tail has.head_le (fun e he => hlast e (List.mem_cons_of_mem a he)) ha
    rw [List.cons_append, weave, weave, hrest]
    simp only [List.append_assoc]

/-- By how many bytes an edit makes a text longer. -/
def growth (e : Edit) : Int := (encode e.replacement).length - (e.span.stop - e.span.start)

theorem weave_length {bytes : List UInt8} {es : List Edit} {pos stop : Int}
    (h : InOrder bytes.length es) (hfirst : ∀ e ∈ es, pos ≤ e.span.start)
    (hlast : ∀ e ∈ es, e.span.stop ≤ stop) (hzero : 0 ≤ pos) (hpos : pos ≤ stop)
    (hstop : stop ≤ bytes.length) :
    ((weave bytes pos stop es).length : Int) = stop - pos + (es.map growth).sum := by
  induction es generalizing pos with
  | nil =>
    rw [weave, stretch_length bytes hzero hpos hstop]
    simp
  | cons e es ih =>
    have he := h.fits e (List.mem_cons_self ..)
    have hstart := he.start_lt
    have hlength := he.stop_le
    have hbefore := hfirst e (List.mem_cons_self ..)
    have hbehind := hlast e (List.mem_cons_self ..)
    have hrest := ih h.tail h.head_le (fun d hd => hlast d (List.mem_cons_of_mem e hd)) (by omega)
      hbehind
    have hhead := stretch_length bytes hzero hbefore (by omega)
    rw [weave, List.length_append, List.length_append, List.map_cons, List.sum_cons, growth]
    omega

theorem InOrder.append {length : Nat} {as bs : List Edit} (h : InOrder length (as ++ bs)) :
    InOrder length as ∧ InOrder length bs := by
  obtain ⟨has, hbs, _⟩ := List.pairwise_append.mp h.pairwise
  exact ⟨⟨fun e he => h.fits e (List.mem_append_left bs he), has⟩,
    ⟨fun e he => h.fits e (List.mem_append_right as he), hbs⟩⟩

/-- Edits that each take bytes of their own. -/
structure Separate (length : Nat) (es : List Edit) : Prop where
  fits : ∀ e ∈ es, Fits length e.span
  apart : es.Pairwise fun a b => a.span.stop ≤ b.span.start ∨ b.span.stop ≤ a.span.start

theorem Separate.perm {length : Nat} {as bs : List Edit} (h : Separate length as)
    (hperm : as.Perm bs) : Separate length bs :=
  ⟨fun e he => h.fits e (hperm.mem_iff.mpr he), h.apart.perm hperm Or.symm⟩

theorem Separate.tail {length : Nat} {e : Edit} {es : List Edit} (h : Separate length (e :: es)) :
    Separate length es :=
  ⟨fun d hd => h.fits d (List.mem_cons_of_mem e hd), (List.pairwise_cons.mp h.apart).2⟩

def inSpanOrder (es : List Edit) : List Edit := sortBy (fun a b => spanLe a.span b.span) es

/-- The bytes with edits made, in whatever order they are given. -/
def made (bytes : List UInt8) (es : List Edit) : List UInt8 := spliceBytes bytes (inSpanOrder es)

theorem span_le_trans (a b c : Span) (hab : spanLe a b = true) (hbc : spanLe b c = true) :
    spanLe a c = true := by
  simp only [spanLe, Bool.or_eq_true, Bool.and_eq_true, decide_eq_true_eq] at *
  omega

theorem span_le_total (a b : Span) : (spanLe a b || spanLe b a) = true := by
  simp only [spanLe, Bool.or_eq_true, Bool.and_eq_true, decide_eq_true_eq]
  omega

theorem in_span_order_eq (es : List Edit) :
    inSpanOrder es = es.mergeSort fun a b => spanLe a.span b.span :=
  sort_by_eq_merge_sort _ (fun a b c => span_le_trans a.span b.span c.span)
    (fun a b => span_le_total a.span b.span) es

theorem in_span_order_perm (es : List Edit) : (inSpanOrder es).Perm es := by
  rw [in_span_order_eq]
  exact List.mergeSort_perm es _

theorem in_span_order_pairwise (es : List Edit) :
    (inSpanOrder es).Pairwise fun a b => spanLe a.span b.span = true := by
  rw [in_span_order_eq]
  exact List.pairwise_mergeSort (fun a b c => span_le_trans a.span b.span c.span)
    (fun a b => span_le_total a.span b.span) es

theorem Separate.in_order {length : Nat} {es : List Edit} (h : Separate length es) :
    InOrder length (inSpanOrder es) := by
  have hsorted := h.perm (in_span_order_perm es).symm
  refine ⟨hsorted.fits, ?_⟩
  refine ((in_span_order_pairwise es).and hsorted.apart).imp_of_mem ?_
  intro a b ha hb hab
  have hfilled := (hsorted.fits a ha).start_lt
  have hfilled' := (hsorted.fits b hb).start_lt
  simp only [spanLe, Bool.or_eq_true, Bool.and_eq_true, decide_eq_true_eq] at hab
  omega

/-- By how much edits move what stands at a place: by what those before it have grown. -/
def displacement (done : List Edit) (place : Int) : Int :=
  ((done.filter fun d => d.span.stop ≤ place).map growth).sum

theorem displacement_perm {as bs : List Edit} (h : as.Perm bs) (place : Int) :
    displacement as place = displacement bs place :=
  ((h.filter _).map _).sum_eq

theorem Separate.append {length : Nat} {as bs : List Edit} (h : Separate length (as ++ bs)) :
    Separate length as ∧ Separate length bs := by
  obtain ⟨has, hbs, _⟩ := List.pairwise_append.mp h.apart
  exact ⟨⟨fun e he => h.fits e (List.mem_append_left bs he), has⟩,
    ⟨fun e he => h.fits e (List.mem_append_right as he), hbs⟩⟩

theorem Separate.filter {length : Nat} {es : List Edit} (h : Separate length es)
    (p : Edit → Bool) : Separate length (es.filter p) :=
  ⟨fun e he => h.fits e (List.mem_filter.mp he).1, h.apart.filter p⟩

theorem collide_eq_false_iff {a b : Span} :
    collide a b = false ↔ (b.stop ≤ a.start ∨ a.stop ≤ b.start) ∧ a ≠ b := by
  simp only [collide, Span.overlaps, Bool.or_eq_false_iff, Bool.and_eq_false_iff,
    decide_eq_false_iff_not, Int.not_lt, ne_eq]

theorem span_le_iff {a b : Span} :
    spanLe a b = true ↔ a.start < b.start ∨ a.start = b.start ∧ a.stop ≤ b.stop := by
  simp only [spanLe, Bool.or_eq_true, Bool.and_eq_true, decide_eq_true_eq]

theorem span_le_antisymm {a b : Span} (hab : spanLe a b = true) (hba : spanLe b a = true) :
    a = b := by
  have hle := span_le_iff.mp hab
  have hge := span_le_iff.mp hba
  cases a
  cases b
  simp only [Span.mk.injEq]
  dsimp only at hle hge
  omega

theorem stop_le_of_not_collide {a b : Span} (hle : spanLe a b = true) (hb : b.start ≤ b.stop)
    (h : collide a b = false) : a.stop ≤ b.start := by
  obtain ⟨hside, hne⟩ := collide_eq_false_iff.mp h
  have horder := span_le_iff.mp hle
  by_contra hover
  have hback : spanLe b a = true := span_le_iff.mpr (by omega)
  exact hne (span_le_antisymm hle hback)

theorem not_collide_iff {a b : Span} (ha : a.start < a.stop) :
    collide a b = false ↔ a.stop ≤ b.start ∨ b.stop ≤ a.start := by
  rw [collide_eq_false_iff, or_comm, and_iff_left_of_imp]
  rintro hside rfl
  omega

/-- Of sorted edits none collides with any other when none collides with the next. -/
theorem collision_eq_none_iff {es : List TaggedEdit}
    (hsorted : es.Pairwise fun a b => spanLe a.edit.span b.edit.span = true)
    (hle : ∀ e ∈ es, e.edit.span.start ≤ e.edit.span.stop) :
    collision? es = none ↔
      es.Pairwise fun a b => collide a.edit.span b.edit.span = false := by
  induction es with
  | nil => exact ⟨fun _ => .nil, fun _ => rfl⟩
  | cons a es ih =>
    cases es with
    | nil => exact ⟨fun _ => List.pairwise_singleton .., fun _ => rfl⟩
    | cons b bs =>
      obtain ⟨hfirst, hrest⟩ := List.pairwise_cons.mp hsorted
      have hab := hfirst b (List.mem_cons_self ..)
      have hb := hle b (List.mem_cons_of_mem a (List.mem_cons_self ..))
      have hbs := ih hrest fun e he => hle e (List.mem_cons_of_mem a he)
      unfold collision?
      cases hcollide : collide a.edit.span b.edit.span with
      | true =>
        refine ⟨nofun, fun h => ?_⟩
        have hnot := (List.pairwise_cons.mp h).1 b (List.mem_cons_self ..)
        rw [hcollide] at hnot
        nomatch hnot
      | false =>
        rw [if_neg Bool.false_ne_true, hbs, List.pairwise_cons (a := a), and_iff_right_of_imp]
        intro _
        refine List.forall_mem_cons.mpr ⟨hcollide, fun c hc => ?_⟩
        -- What begins behind the next edit begins behind this one, and cannot be this one again.
        have hbc := (List.pairwise_cons.mp hrest).1 c hc
        have hbefore := stop_le_of_not_collide hab hb hcollide
        have hnext := span_le_iff.mp hbc
        refine collide_eq_false_iff.mpr ⟨.inr (by omega), fun hac => ?_⟩
        have hsame := span_le_antisymm hab (hac ▸ hbc)
        exact (collide_eq_false_iff.mp hcollide).2 hsame

theorem map_ordered (es : List TaggedEdit) :
    (ordered es).map (·.edit) = inSpanOrder (es.map (·.edit)) :=
  map_sort_by (fun a b : Edit => spanLe a.span b.span) (·.edit) es

theorem ordered_pairwise (es : List TaggedEdit) :
    (ordered es).Pairwise fun a b => spanLe a.edit.span b.edit.span = true := by
  have hsorted := in_span_order_pairwise (es.map (·.edit))
  rw [← map_ordered] at hsorted
  exact List.pairwise_map.mp hsorted

/-- Sorting leaves no neighbours that collide exactly when no two edits collide. -/
theorem collision_ordered_eq_none_iff {es : List TaggedEdit}
    (hle : ∀ e ∈ es, e.edit.span.start ≤ e.edit.span.stop) :
    collision? (ordered es) = none ↔
      es.Pairwise fun a b => collide a.edit.span b.edit.span = false := by
  rw [collision_eq_none_iff (ordered_pairwise es) fun e he => hle e (mem_sort_by.mp he)]
  refine (perm_sort_by _ es).pairwise_iff fun hab => ?_
  rw [collide_comm]
  exact hab

theorem splice_eq_ok {text spliced : String} {es : List TaggedEdit} :
    splice text es = .ok spliced ↔ collision? (ordered es) = none ∧
      encode spliced = spliceBytes (encode text) ((ordered es).map (·.edit)) := by
  cases hcollision : collision? (ordered es) with
  | some ab =>
    simp only [splice, hcollision]
    exact ⟨nofun, fun h => nomatch h.1⟩
  | none =>
    cases hdecode : decode? (spliceBytes (encode text) ((ordered es).map (·.edit))) with
    | none =>
      simp only [splice, hcollision, hdecode]
      refine ⟨nofun, fun h => ?_⟩
      rw [← h.2, decode_encode] at hdecode
      nomatch hdecode
    | some s =>
      simp only [splice, hcollision, hdecode, Except.ok.injEq]
      have hencode := encode_of_decode hdecode
      exact ⟨fun h => ⟨trivial, h ▸ hencode⟩, fun h => encode_injective (hencode.trans h.2.symm)⟩

/-- Edits of a text's bytes are spliced exactly when they are apart, and then they are made. -/
theorem splice_eq_ok_iff {text spliced : String} {es : List TaggedEdit}
    (hfits : ∀ e ∈ es, Fits (encode text).length e.edit.span) :
    splice text es = .ok spliced ↔
      Separate (encode text).length (es.map (·.edit)) ∧
        encode spliced = made (encode text) (es.map (·.edit)) := by
  have hle : ∀ e ∈ es, e.edit.span.start ≤ e.edit.span.stop :=
    fun e he => (hfits e he).inside.start_le
  rw [splice_eq_ok, made, ← map_ordered, collision_ordered_eq_none_iff hle]
  refine and_congr_left fun _ => ⟨fun h => ⟨List.forall_mem_map.mpr hfits, ?_⟩, fun h => ?_⟩
  · refine List.pairwise_map.mpr (h.imp_of_mem fun ha _ hab => ?_)
    exact (not_collide_iff (hfits _ ha).start_lt).mp hab
  · refine (List.pairwise_map.mp h.apart).imp_of_mem fun ha _ hab => ?_
    exact (not_collide_iff (hfits _ ha).start_lt).mpr hab

end BacktestAudit.Fix
