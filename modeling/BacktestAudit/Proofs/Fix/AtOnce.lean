import BacktestAudit.Data.Outcome
import BacktestAudit.Proofs.Fix.Weave
import Mathlib.Data.List.Pairwise

/-!
Splicing replaces all spans at once. Spans of whole characters, empty ones among them, are refused
exactly when two of them meet; else the text becomes what stands between them with the replacements
in their place, in whatever order the edits are given.
-/
namespace BacktestAudit.Fix
open BacktestAudit.Data.Outcome BacktestAudit.Source BacktestAudit.Text
set_option autoImplicit false

/-! ## Spans of whole characters -/

/-- A place between two characters of a text. -/
def Boundary (text : String) (place : Int) : Prop :=
  ∃ before behind, text = before ++ behind ∧ ((encode before).length : Int) = place

theorem boundary_start (text : String) : Boundary text 0 :=
  ⟨"", text, String.empty_append.symm, by rw [encode_empty]; rfl⟩

theorem boundary_end (text : String) : Boundary text (encode text).length :=
  ⟨text, "", String.append_empty.symm, rfl⟩

theorem Boundary.bounds {text : String} {place : Int} (h : Boundary text place) :
    0 ≤ place ∧ place ≤ (encode text).length := by
  obtain ⟨before, behind, rfl, hplace⟩ := h
  rw [encode_append, List.length_append]
  omega

/-- What stands between two boundaries of a text is a text. -/
theorem Boundary.between {text : String} {a b : Int} (ha : Boundary text a) (hb : Boundary text b)
    (hab : a ≤ b) :
    ∃ before middle behind, text = before ++ (middle ++ behind) ∧
      ((encode before).length : Int) = a ∧
      ((encode before).length : Int) + (encode middle).length = b := by
  obtain ⟨before, rest, hfirst, hstart⟩ := ha
  obtain ⟨upTo, behind, hsecond, hstop⟩ := hb
  have hchars : before.toList ++ rest.toList = upTo.toList ++ behind.toList := by
    rw [← String.toList_append, ← String.toList_append, ← hfirst, ← hsecond]
  rcases List.append_eq_append_iff.mp hchars with ⟨cs, hcs, hrest⟩ | ⟨cs, hcs, hrest⟩
  · have hupTo : upTo = before ++ String.ofList cs := by
      rw [← String.toList_inj, String.toList_append, String.toList_ofList, hcs]
    refine ⟨before, String.ofList cs, behind, ?_, hstart, ?_⟩
    · rw [hsecond, hupTo, String.append_assoc]
    · rw [← hstop, hupTo, encode_append, List.length_append]
      omega
  · have hbefore : before = upTo ++ String.ofList cs := by
      rw [← String.toList_inj, String.toList_append, String.toList_ofList, hcs]
    have hlength := hstart
    rw [hbefore, encode_append, List.length_append] at hlength
    refine ⟨upTo, "", behind, ?_, by omega, ?_⟩
    · rw [hsecond, String.empty_append]
    · rw [encode_empty, List.length_nil]
      omega

theorem stretch_between {text : String} {a b : Int} (ha : Boundary text a) (hb : Boundary text b)
    (hab : a ≤ b) : ∃ middle, encode middle = stretch (encode text) a b := by
  obtain ⟨before, middle, behind, rfl, hstart, hstop⟩ := ha.between hb hab
  refine ⟨middle, ?_⟩
  have hdrop : a.toNat = (encode before).length := by omega
  have htake : b.toNat - a.toNat = (encode middle).length := by omega
  rw [stretch, htake, hdrop, encode_append, encode_append, List.drop_left, List.take_left]

/-- A span between two characters of a text, or between a character and itself. -/
structure Whole (text : String) (s : Span) : Prop where
  start : Boundary text s.start
  start_le : s.start ≤ s.stop
  stop : Boundary text s.stop

theorem Whole.inside {text : String} {s : Span} (h : Whole text s) :
    Inside (encode text).length s :=
  ⟨h.start.bounds.1, h.start_le, h.stop.bounds.2⟩

theorem edits_whole {text : String} {es : List TaggedEdit}
    (hwhole : ∀ e ∈ es, Whole text e.edit.span) : ∀ d ∈ es.map (·.edit), Whole text d.span := by
  intro d hd
  obtain ⟨e, he, rfl⟩ := List.mem_map.mp hd
  exact hwhole e he

/-- Replacing spans of whole characters one after the other leaves a text. -/
theorem weave_whole {text : String} {es : List Edit} (hwhole : ∀ e ∈ es, Whole text e.span)
    (horder : es.Pairwise fun a b => a.span.stop ≤ b.span.start) {pos : Int}
    (hpos : Boundary text pos) (hfirst : ∀ e ∈ es, pos ≤ e.span.start) :
    ∃ woven, encode woven = weave (encode text) pos (encode text).length es := by
  induction es generalizing pos with
  | nil => exact stretch_between hpos (boundary_end text) hpos.bounds.2
  | cons e es ih =>
    have he := hwhole e (List.mem_cons_self ..)
    obtain ⟨hnext, htail⟩ := List.pairwise_cons.mp horder
    obtain ⟨gap, hgap⟩ := stretch_between hpos he.start (hfirst e (List.mem_cons_self ..))
    obtain ⟨rest, hrest⟩ :=
      ih (fun d hd => hwhole d (List.mem_cons_of_mem e hd)) htail he.stop hnext
    refine ⟨gap ++ e.replacement ++ rest, ?_⟩
    rw [encode_append, encode_append, hgap, hrest, weave]

/-! ## Edits that meet -/

/-- Two entries of a list of edits have spans that overlap or are one. -/
def Meet (es : List TaggedEdit) : Prop :=
  ∃ i j : Fin es.length, i ≠ j ∧
    (es[i].edit.span.overlaps es[j].edit.span = true ∨ es[i].edit.span = es[j].edit.span)

instance (es : List TaggedEdit) : Decidable (Meet es) :=
  inferInstanceAs (Decidable (∃ i j : Fin es.length, i ≠ j ∧
    (es[i].edit.span.overlaps es[j].edit.span = true ∨ es[i].edit.span = es[j].edit.span)))

theorem meet_iff {es : List TaggedEdit} :
    Meet es ↔ ¬ es.Pairwise fun a b => collide a.edit.span b.edit.span = false := by
  have hcollide (a b : Span) :
      collide a b = true ↔ a.overlaps b = true ∨ a = b := by
    simp only [collide, Bool.or_eq_true, decide_eq_true_eq]
  rw [List.pairwise_iff_getElem]
  constructor
  · rintro ⟨i, j, hne, hmeet⟩ hnone
    have hij := (hcollide _ _).mpr hmeet
    rcases Nat.lt_or_gt_of_ne (Fin.val_ne_of_ne hne) with hlt | hlt
    · have hnot := hnone i j i.isLt j.isLt hlt
      exact Bool.false_ne_true (hnot.symm.trans hij)
    · have hnot := hnone j i j.isLt i.isLt hlt
      rw [collide_comm] at hnot
      exact Bool.false_ne_true (hnot.symm.trans hij)
  · intro h
    push Not at h
    obtain ⟨i, j, hi, hj, hlt, hmeet⟩ := h
    refine ⟨⟨i, hi⟩, ⟨j, hj⟩, ?_, (hcollide _ _).mp (Bool.not_eq_false _ ▸ hmeet)⟩
    exact Fin.ne_of_val_ne (Nat.ne_of_lt hlt)

theorem meet_perm {as bs : List TaggedEdit} (h : as.Perm bs) : Meet as ↔ Meet bs := by
  rw [meet_iff, meet_iff, h.pairwise_iff]
  intro a b hab
  rw [collide_comm]
  exact hab

/-! ## What becomes of the text -/

/-- A text in which edits of another have replaced their spans, all at once: in the order of the
spans, the bytes between them are as they were and the replacements stand in their place. -/
def ReplacedAtOnce (text spliced : String) (es : List TaggedEdit) : Prop :=
  ∃ ds : List Edit, ds.Perm (es.map (·.edit)) ∧
    ds.Pairwise (fun a b => a.span.stop ≤ b.span.start) ∧
    encode spliced = weave (encode text) 0 (encode text).length ds

theorem ReplacedAtOnce.perm {text spliced : String} {as bs : List TaggedEdit}
    (h : ReplacedAtOnce text spliced as) (hperm : as.Perm bs) :
    ReplacedAtOnce text spliced bs := by
  obtain ⟨ds, hds, horder, hwoven⟩ := h
  exact ⟨ds, hds.trans (hperm.map _), horder, hwoven⟩

/-- Edits no two of which meet stand in one order only, so they make one text. -/
theorem ReplacedAtOnce.unique {text s t : String} {es : List TaggedEdit}
    (hwhole : ∀ e ∈ es, Whole text e.edit.span) (hmeet : ¬ Meet es)
    (hs : ReplacedAtOnce text s es) (ht : ReplacedAtOnce text t es) : s = t := by
  obtain ⟨ds, hds, horder, hwoven⟩ := hs
  obtain ⟨ds', hds', horder', hwoven'⟩ := ht
  have hapart : (es.map (·.edit)).Pairwise fun a b => collide a.span b.span = false :=
    List.pairwise_map.mpr (not_not.mp (mt meet_iff.mpr hmeet))
  have hsame : ds = ds' := by
    refine List.Perm.eq_of_pairwise ?_ horder horder' (hds.trans hds'.symm)
    intro a b ha hb hab hba
    have hmema := hds.mem_iff.mp ha
    have hmemb := hds'.mem_iff.mp hb
    have hlea := (edits_whole hwhole a hmema).start_le
    have hleb := (edits_whole hwhole b hmemb).start_le
    have hspan : a.span = b.span :=
      span_le_antisymm (span_le_iff.mpr (by omega)) (span_le_iff.mpr (by omega))
    have hsymm : Std.Symm fun a b : Edit => collide a.span b.span = false :=
      ⟨fun a b h => (collide_comm b.span a.span).trans h⟩
    by_contra hne
    have hnot := hapart.forall hmema hmemb hne
    exact (collide_eq_false_iff.mp hnot).2 hspan
  exact encode_injective (hwoven.trans (hsame ▸ hwoven'.symm))

theorem splice_of_meet {text : String} {es : List TaggedEdit}
    (hwhole : ∀ e ∈ es, Whole text e.edit.span) (hmeet : Meet es) :
    ∃ a b place, splice text es = .error (.error (.overlap a b place)) := by
  have hle : ∀ e ∈ es, e.edit.span.start ≤ e.edit.span.stop := fun e he => (hwhole e he).start_le
  have hsome := mt (collision_ordered_eq_none_iff hle).mp (meet_iff.mp hmeet)
  obtain ⟨⟨a, b⟩, hcollision⟩ := Option.ne_none_iff_exists'.mp hsome
  refine ⟨a.rule, b.rule, ⟨b.edit.span.start, a.edit.span.stop⟩, ?_⟩
  simp only [splice, hcollision]

theorem splice_of_not_meet {text : String} {es : List TaggedEdit}
    (hwhole : ∀ e ∈ es, Whole text e.edit.span) (hmeet : ¬ Meet es) :
    ∃ spliced, splice text es = .ok spliced ∧ ReplacedAtOnce text spliced es := by
  have hle : ∀ e ∈ es, e.edit.span.start ≤ e.edit.span.stop := fun e he => (hwhole e he).start_le
  have hapart := not_not.mp (mt meet_iff.mpr hmeet)
  have hnone := (collision_ordered_eq_none_iff hle).mpr hapart
  have hperm : ((ordered es).map (·.edit)).Perm (es.map (·.edit)) := (perm_sort_by _ es).map _
  have hin : ∀ e ∈ (ordered es).map (·.edit), Whole text e.span :=
    fun e he => edits_whole hwhole e (hperm.mem_iff.mp he)
  have hnext : ((ordered es).map (·.edit)).Pairwise fun a b => a.span.stop ≤ b.span.start := by
    have hsorted := ordered_pairwise es
    have hkept := (collision_eq_none_iff hsorted fun e he => hle e (mem_sort_by.mp he)).mp hnone
    refine List.pairwise_map.mpr ((hsorted.and hkept).imp_of_mem ?_)
    intro a b _ hb hab
    exact stop_le_of_not_collide hab.1 (hle b (mem_sort_by.mp hb)) hab.2
  obtain ⟨spliced, hspliced⟩ :=
    weave_whole hin hnext (boundary_start text) fun e he => (hin e he).start.bounds.1
  refine ⟨spliced, splice_eq_ok.mpr ⟨hnone, ?_⟩, _, hperm, hnext, hspliced⟩
  rw [splice_bytes_of_inside (fun e he => (hin e he).inside) hnext, hspliced]

/-- Edits of whole characters are refused exactly when two of them meet, and else made at once; the
order in which they are given makes no difference. -/
theorem splice_replaces_at_once {text : String} {es : List TaggedEdit}
    (hwhole : ∀ e ∈ es, Whole text e.edit.span) :
    ((∃ a b place, splice text es = .error (.error (.overlap a b place))) ↔ Meet es) ∧
      (¬ Meet es → ∃ spliced, splice text es = .ok spliced ∧ ReplacedAtOnce text spliced es) ∧
      ∀ others, es.Perm others → (splice text others).toOption = (splice text es).toOption := by
  refine ⟨⟨?_, splice_of_meet hwhole⟩, splice_of_not_meet hwhole, fun others hperm => ?_⟩
  · rintro ⟨a, b, place, hrefused⟩
    by_contra hmeet
    obtain ⟨spliced, hspliced, _⟩ := splice_of_not_meet hwhole hmeet
    rw [hrefused] at hspliced
    nomatch hspliced
  · have hwhole' : ∀ e ∈ others, Whole text e.edit.span :=
      fun e he => hwhole e (hperm.mem_iff.mpr he)
    by_cases hmeet : Meet es
    · obtain ⟨_, _, _, hrefused⟩ := splice_of_meet hwhole hmeet
      obtain ⟨_, _, _, hrefused'⟩ := splice_of_meet hwhole' ((meet_perm hperm).mp hmeet)
      rw [hrefused, hrefused']
      rfl
    · obtain ⟨spliced, hspliced, hmade⟩ := splice_of_not_meet hwhole hmeet
      obtain ⟨spliced', hspliced', hmade'⟩ :=
        splice_of_not_meet hwhole' (mt (meet_perm hperm).mpr hmeet)
      rw [hspliced, hspliced', (hmade'.perm hperm.symm).unique hwhole hmeet hmade]

/-- An insertion at the end of what another edit replaces, and one behind both. -/
def touchingEdits : List TaggedEdit :=
  [⟨"LB001", ⟨6, 6⟩, ".shift(1)"⟩, ⟨"A", ⟨2, 2⟩, ": float"⟩, ⟨"B", ⟨0, 2⟩, "pos"⟩]

theorem touching_edits_replace_at_once :
    (∀ e ∈ touchingEdits, Whole "é = s\n" e.edit.span) ∧ ¬ Meet touchingEdits ∧
      splice "é = s\n" touchingEdits = .ok "pos: float = s.shift(1)\n" ∧
      ReplacedAtOnce "é = s\n" "pos: float = s.shift(1)\n" touchingEdits ∧
      (splice "é = s\n" touchingEdits.reverse).toOption = some "pos: float = s.shift(1)\n" := by
  have hbehind : Boundary "é = s\n" 6 := ⟨"é = s", "\n", rfl, by decide +kernel⟩
  have hbetween : Boundary "é = s\n" 2 := ⟨"é", " = s\n", rfl, by decide +kernel⟩
  have hwhole : ∀ e ∈ touchingEdits, Whole "é = s\n" e.edit.span := by
    simp only [touchingEdits, List.forall_mem_cons]
    exact ⟨⟨hbehind, Int.le_refl 6, hbehind⟩, ⟨hbetween, Int.le_refl 2, hbetween⟩,
      ⟨boundary_start _, by decide, hbetween⟩, nofun⟩
  have hapart : ¬ Meet touchingEdits := by decide +kernel
  have hspliced : splice "é = s\n" touchingEdits = .ok "pos: float = s.shift(1)\n" :=
    to_option_eq_some.mp (by decide +kernel)
  obtain ⟨_, hmade, hperm⟩ := splice_replaces_at_once hwhole
  obtain ⟨spliced, hok, hreplaced⟩ := hmade hapart
  rw [hspliced, Except.ok.injEq] at hok
  subst hok
  refine ⟨hwhole, hapart, hspliced, hreplaced, ?_⟩
  rw [hperm _ (List.reverse_perm touchingEdits).symm, hspliced]
  rfl

end BacktestAudit.Fix
