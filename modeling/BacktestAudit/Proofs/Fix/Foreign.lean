import BacktestAudit.Data.Outcome
import BacktestAudit.Proofs.Fix.Outcome
import BacktestAudit.Proofs.Source.Shown

/-!
What comes of a fix in another unit than the one that its finding was reported of. It is refused when
the units show different lines at the place of the finding; beyond the line that is shown they are
not compared, nor where that line lies in the bytes.
-/
namespace BacktestAudit.Fix
open BacktestAudit.Source BacktestAudit.Syntax BacktestAudit.Rules BacktestAudit.Data.Outcome
set_option autoImplicit false

/-- How the reason of a refusal reads when a finding shows another line. -/
def notThisUnit : String := "finding does not match this unit"

/-- A finding that offers a fix belongs to the units that show its line. -/
theorem check_target_elsewhere {s : Settings} {unit other : SourceUnit} {fs : List Finding}
    (h : analyze s unit = .ok fs) {f : Finding} (hf : f ∈ fs) (hfix : f.fixAvailable = true) :
    checkTarget other f =
      if snippet other.text f.place snippetLimit = snippet unit.text f.place snippetLimit then .ok ()
      else .error (.error (.fixVerification f.rule f.place (some notThisUnit))) := by
  obtain ⟨r, ms, m, _, _, rfl⟩ := exists_match_of_mem h hf
  have hedits : m.edits.isEmpty = false := by simpa [finding] using hfix
  simp only [checkTarget, finding, hedits, notThisUnit, Bool.not_false, Bool.not_true, Bool.or_self,
    Bool.false_eq_true, if_false, ite_not]

theorem apply_of_refused {s : Settings} {unit : SourceUnit} {f : Finding} {e : Failure}
    (h : checkTarget unit f = .error e) : apply s unit [f] = .error e := by
  rw [apply_eq]
  change (checkTarget unit f >>= fun _ => Except.ok ()) >>= _ = _
  rw [h]
  rfl

/-- A fix in a unit that its finding was not reported of: it is refused when the unit shows another
line, and otherwise ends as a fix of its own would; where the line begins at the same byte in both
units, what it replaces of the part that is shown is the same in both. -/
theorem fix_of_other_unit {s : Settings} {unit other : SourceUnit} {fs : List Finding}
    (hfs : analyze s unit = .ok fs) {f : Finding} (hf : f ∈ fs) (hfix : f.fixAvailable = true) :
    (snippet other.text f.place snippetLimit ≠ snippet unit.text f.place snippetLimit →
      apply s other [f] =
        .error (.error (.fixVerification f.rule f.place (some notThisUnit)))) ∧
    ∀ r, (apply s other [f] = .ok r ↔
        snippet other.text f.place snippetLimit = snippet unit.text f.place snippetLimit ∧
        ∃ text, splice other.text (taggedEdits [f]) = .ok text ∧
          SourceUnit.parse text other.name = .ok r.unit ∧ analyze s r.unit = .ok r.remaining ∧
          (∀ g ∈ r.remaining, g.key ≠ f.key) ∧ r.applied = [f]) ∧
      (apply s other [f] = .ok r →
        shownStart other.text f.place.first = shownStart unit.text f.place.first →
        ∀ e ∈ f.edits, LiesShown unit.text f.place.first e.span →
          bytesOf other.text e.span = bytesOf unit.text e.span) := by
  have hcheck : checkTarget other f = _ := check_target_elsewhere hfs hf hfix
  have hbelongs : checkTarget other f = .ok () ↔
      snippet other.text f.place snippetLimit = snippet unit.text f.place snippetLimit := by
    rw [hcheck]
    split
    · next h => exact ⟨fun _ => h, fun _ => rfl⟩
    · next h => exact ⟨nofun, fun h' => absurd h' h⟩
  have hok (r : FixResult) : apply s other [f] = .ok r ↔ _ := apply_eq_ok
  simp only [List.mem_singleton, forall_eq, hbelongs, List.map_singleton, ← ne_eq] at hok
  refine ⟨fun hother => ?_, fun r => ⟨hok r, fun happly hstart e _ hlies => ?_⟩⟩
  · rw [if_neg hother] at hcheck
    exact apply_of_refused hcheck
  · have hpart := shown_part_of_snippet ((hok r).mp happly).1
    exact (bytes_of_shown hpart.symm hstart.symm hlies).symm

/-! ## Two units -/

/-- The fix of a finding stands in another unit that shows its line when its text there is a program
of which the finding is not reported. -/
theorem apply_elsewhere {s : Settings} {unit other : SourceUnit} {fs : List Finding}
    (hfs : analyze s unit = .ok fs) {f : Finding} (hf : f ∈ fs) (hfix : f.fixAvailable = true)
    (hshown : snippet other.text f.place snippetLimit = snippet unit.text f.place snippetLimit)
    {text name made : String} (hparse : SourceUnit.parse text name = .ok other)
    (hsplice : splicesTo text made (taggedEdits [f]) = true)
    (hclears : clears s made name [f.key] (fun _ _ => true) = true) :
    ∃ r, apply s other [f] = .ok r ∧ r.unit.text = made := by
  have hcheck : ∀ g ∈ [f], checkTarget other g = .ok () := by
    rw [List.forall_mem_singleton, check_target_elsewhere hfs hf hfix, if_pos hshown]
  obtain ⟨r, happly, hmade, _⟩ := apply_of_clears hparse hcheck rfl hsplice hclears
  exact ⟨r, happly, (SourceUnit.parse_eq_ok hmade).1⟩

/-- A unit with a signal that is traded on its own bar, on the second line. -/
def signalText : String := "\npos = sig\n"

/-- The same on the second line, and another line behind it. -/
def longerText : String := "\npos = sig\ny = vol\n"

theorem fix_of_shorter_text :
    ∃ unit other fs f r, SourceUnit.parse signalText "signal" = .ok unit ∧
      SourceUnit.parse longerText "longer" = .ok other ∧ analyze .standard unit = .ok fs ∧ f ∈ fs ∧
      f.fixAvailable = true ∧ apply .standard other [f] = .ok r ∧
      shownStart other.text f.place.first = shownStart unit.text f.place.first ∧ f.edits ≠ [] ∧
      ∀ e ∈ f.edits, LiesShown unit.text f.place.first e.span ∧
        bytesOf other.text e.span = bytesOf unit.text e.span := by
  have hoffer : offers .standard signalText "signal" ⟨"LB001", ⟨2, 2⟩⟩ (fun _ f =>
      decide (f.edits.map (·.span) = [⟨7, 10⟩]) &&
        splicesTo longerText "\npos = sig.shift(1)\ny = vol\n" (taggedEdits [f])) = true := by
    decide +kernel
  have hparses : SourceUnit.parsesTo longerText "longer" (fun _ => true) = true := by
    decide +kernel
  have hmended : clears .standard "\npos = sig.shift(1)\ny = vol\n" "longer"
      [⟨"LB001", ⟨2, 2⟩⟩] (fun _ _ => true) = true := by
    decide +kernel
  obtain ⟨unit, fs, f, hunit, hfs, hf, hfix, hkey, htest⟩ := exists_of_offers hoffer
  obtain ⟨other, hother, _⟩ := SourceUnit.parses_to_iff.mp hparses
  obtain ⟨hspans, hsplice⟩ := Bool.and_eq_true_iff.mp htest
  have hspans := of_decide_eq_true hspans
  have hplace : f.place = ⟨2, 2⟩ := congrArg FindingKey.place hkey
  rw [← hkey] at hmended
  have htext := (SourceUnit.parse_eq_ok hunit).1
  have htext' := (SourceUnit.parse_eq_ok hother).1
  have hshown : snippet other.text f.place snippetLimit =
      snippet unit.text f.place snippetLimit := by
    rw [htext, htext', hplace]
    decide +kernel
  obtain ⟨r, happly, _⟩ := apply_elsewhere hfs hf hfix hshown hother hsplice hmended
  have hstart : shownStart other.text f.place.first = shownStart unit.text f.place.first := by
    rw [htext, htext', hplace]
    decide +kernel
  have hlies : ∀ e ∈ f.edits, LiesShown unit.text f.place.first e.span := by
    intro e he
    have hspan : e.span = ⟨7, 10⟩ :=
      List.mem_singleton.mp (hspans ▸ List.mem_map_of_mem (f := (·.span)) he)
    rw [htext, hplace, hspan]
    exact ⟨by decide +kernel, by decide, by decide +kernel⟩
  refine ⟨unit, other, fs, f, r, hunit, hother, hfs, hf, hfix, happly, hstart, ?_, fun e he =>
    ⟨hlies e he, ((fix_of_other_unit hfs hf hfix).2 r).2 happly hstart e he (hlies e he)⟩⟩
  intro hnone
  rw [hnone] at hspans
  nomatch hspans

/-- A unit whose second line begins late, behind a long comment. -/
def lateLineText : String := "# ........................\npos = sig\n"

/-- The same second line, begun early, with another column where the signal was. -/
def earlyLineText : String := "sig = raw.shift(1)\npos = sig\ny = vol\n"

/-- The text with the edits of the first unit. -/
def misplacedText : String := "sig = raw.shift(1)\npos = sig\ny = sig.shift(1)\n"

/-- A fix that mends another line than the one that its finding shows. -/
theorem fix_misplaced :
    ∃ unit other fs f r e, SourceUnit.parse lateLineText "late" = .ok unit ∧
      SourceUnit.parse earlyLineText "early" = .ok other ∧ analyze .standard unit = .ok fs ∧
      f ∈ fs ∧ f.fixAvailable = true ∧ apply .standard other [f] = .ok r ∧
      r.unit.text = "sig = raw.shift(1)\npos = sig\ny = sig.shift(1)\n" ∧
      e ∈ f.edits ∧ bytesOf other.text e.span ≠ bytesOf unit.text e.span := by
  have hoffer : offers .standard lateLineText "late" ⟨"LB001", ⟨2, 2⟩⟩ (fun _ f =>
      decide (f.edits.map (·.span) = [⟨33, 36⟩]) &&
        splicesTo earlyLineText misplacedText (taggedEdits [f])) = true := by
    decide +kernel
  have hparses : SourceUnit.parsesTo earlyLineText "early" (fun _ => true) = true := by
    decide +kernel
  have hmended : clears .standard misplacedText "early" [⟨"LB001", ⟨2, 2⟩⟩] (fun _ _ => true) =
      true := by
    decide +kernel
  obtain ⟨unit, fs, f, hunit, hfs, hf, hfix, hkey, htest⟩ := exists_of_offers hoffer
  obtain ⟨other, hother, _⟩ := SourceUnit.parses_to_iff.mp hparses
  obtain ⟨hspans, hsplice⟩ := Bool.and_eq_true_iff.mp htest
  have hspans := of_decide_eq_true hspans
  have hplace : f.place = ⟨2, 2⟩ := congrArg FindingKey.place hkey
  rw [← hkey] at hmended
  have htext := (SourceUnit.parse_eq_ok hunit).1
  have htext' := (SourceUnit.parse_eq_ok hother).1
  have hshown : snippet other.text f.place snippetLimit =
      snippet unit.text f.place snippetLimit := by
    rw [htext, htext', hplace]
    decide +kernel
  obtain ⟨r, happly, hrewritten⟩ := apply_elsewhere hfs hf hfix hshown hother hsplice hmended
  obtain ⟨e, he, hspan⟩ := List.mem_map.mp (hspans.symm ▸ List.mem_singleton_self _)
  refine ⟨unit, other, fs, f, r, e, hunit, hother, hfs, hf, hfix, happly, hrewritten, he, ?_⟩
  rw [hspan, htext, htext']
  decide +kernel

end BacktestAudit.Fix
