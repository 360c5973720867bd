import BacktestAudit.Proofs.Flow.LagOrder
import BacktestAudit.Proofs.Flow.Sources
import BacktestAudit.Proofs.Syntax.Parsed

/-!
The lag of an assignment is the least over all paths on which outside data reaches it. A path starts
at the assignment, goes from each read to the assignment that the read comes from, passes no constant,
and ends in a read of a column from outside; its lag is that of the outside data, of which nothing is
known, read with all the shifts on the way.
-/
namespace BacktestAudit.Flow
open BacktestAudit.Syntax
set_option autoImplicit false

/-- The reads on a way from outside to the assignment with an index, the last read first. -/
inductive Flows (as : Array Assignment) : Nat → List Read → Prop
  | outside {i : Nat} {a : Assignment} {r : Read} (ha : as[i]? = some a) (hr : r ∈ a.reads)
      (hs : r.source = none) : Flows as i [r]
  | through {i j : Nat} {a b : Assignment} {r : Read} {path : List Read} (ha : as[i]? = some a)
      (hr : r ∈ a.reads) (hs : r.source = some j) (hb : as[j]? = some b)
      (hc : b.isConstant = false) (hpath : Flows as j path) : Flows as i (r :: path)

/-- The lag of what comes from outside by a path: it starts unknown, and every read shifts it. -/
def pathLag (path : List Read) : Lag :=
  path.foldr (fun r lag => Lag.shifted lag r.shift) Lag.unknown

/-- A lag that some path has and no path is below. -/
def LeastOverPaths (as : Array Assignment) (i : Nat) (lag : Lag) : Prop :=
  (∃ path, Flows as i path ∧ pathLag path = lag) ∧
    ∀ path, Flows as i path → Lag.le lag (pathLag path) = true

variable {as : Array Assignment}

theorem informative_ne_nil {a : Assignment} {i : Nat} (ha : a.Recorded as i)
    (hc : a.isConstant = false) : a.reads.filter (!·.sourceIsConstant) ≠ [] := by
  intro hnil
  rw [ha.isConstant_eq, hnil] at hc
  simp at hc

/-- The least lag over the paths of all earlier assignments gives the least lag of an informative
read: over the paths that begin with that read. -/
theorem read_attains {i : Nat} {a : Assignment} {r : Read} (ha : as[i]? = some a)
    (hr : r ∈ a.reads) (hinf : r.sourceIsConstant = false) (hsrc : Sourced as i r)
    (ih : ∀ j < i, ∀ b, as[j]? = some b → b.isConstant = false → LeastOverPaths as j b.lag) :
    ∃ path, Flows as i path ∧ pathLag path = r.lag := by
  unfold Sourced at hsrc
  cases hs : r.source with
  | none =>
    simp only [hs] at hsrc
    exact ⟨[r], .outside ha hr hs, hsrc.1.symm⟩
  | some j =>
    simp only [hs] at hsrc
    obtain ⟨hj, b, hb, hlag, hconst⟩ := hsrc
    have hbc : b.isConstant = false := hconst ▸ hinf
    obtain ⟨⟨path, hpath, heq⟩, _⟩ := ih j hj b hb hbc
    refine ⟨r :: path, .through ha hr hs hb hbc hpath, ?_⟩
    rw [hlag, ← heq]
    rfl

/-- No path that begins with a read has a lag below that of the read. -/
theorem read_below {i : Nat} {path : List Read} (hpath : Flows as i path)
    (hrec : ∀ (i : Nat) (a : Assignment), as[i]? = some a → a.Recorded as i)
    (ih : ∀ j < i, ∀ b, as[j]? = some b → b.isConstant = false → LeastOverPaths as j b.lag) :
    ∃ a r, as[i]? = some a ∧ r ∈ a.reads.filter (!·.sourceIsConstant) ∧
      Lag.le r.lag (pathLag path) = true := by
  cases hpath with
  | @outside _ a r ha hr hs =>
    have hsrc := (hrec i a ha).sourced r hr
    simp only [Sourced, hs] at hsrc
    refine ⟨a, r, ha, List.mem_filter.mpr ⟨hr, by simp [hsrc.2]⟩, ?_⟩
    rw [hsrc.1]
    exact Lag.le_refl _
  | @through _ j a b r path ha hr hs hb hc hpath =>
    have hsrc := (hrec i a ha).sourced r hr
    simp only [Sourced, hs] at hsrc
    obtain ⟨hj, b', hb', hlag, hconst⟩ := hsrc
    obtain rfl : b' = b := Option.some.inj (hb'.symm.trans hb)
    refine ⟨a, r, ha, List.mem_filter.mpr ⟨hr, by simp [hconst, hc]⟩, ?_⟩
    rw [hlag]
    exact Lag.shifted_mono r.shift ((ih j hj b' hb hc).2 path hpath)

/-- In a graph whose assignments are recorded from sourced reads, the lag of every assignment that is
no constant is the least over its paths. -/
theorem least_over_paths
    (hrec : ∀ (i : Nat) (a : Assignment), as[i]? = some a → a.Recorded as i) (i : Nat) :
    ∀ a, as[i]? = some a → a.isConstant = false → LeastOverPaths as i a.lag := by
  -- Sources come before what reads them, so the induction is on the index.
  induction i using Nat.strongRecOn with
  | ind i ih =>
    intro a ha hc
    have hrecorded := hrec i a ha
    have hlag := hrecorded.lag_eq
    simp only [hc, Bool.false_eq_true, if_false] at hlag
    constructor
    · have hne : (a.reads.filter (!·.sourceIsConstant)).map (·.lag) ≠ [] := by
        simpa using informative_ne_nil hrecorded hc
      obtain ⟨r, hr, heq⟩ := List.mem_map.mp (hlag ▸ Lag.combine_mem hne)
      obtain ⟨hmem, hinf⟩ := List.mem_filter.mp hr
      rw [← heq]
      exact read_attains ha hmem (by simpa using hinf) (hrecorded.sourced r hmem) ih
    · intro path hpath
      obtain ⟨a', r, ha', hr, hle⟩ := read_below hpath hrec ih
      obtain rfl : a' = a := Option.some.inj (ha'.symm.trans ha)
      rw [hlag]
      exact Lag.le_trans (Lag.combine_le (List.mem_map_of_mem hr)) hle

/-- The lag of every assignment of a unit: that of a constant is zero, that of any other is the least
over the paths from outside. -/
theorem lag_least_over_paths (unit : SourceUnit) (i : Nat)
    (hi : i < (Graph.ofUnit unit).assignments.size) :
    let as := (Graph.ofUnit unit).assignments
    (as[i].isConstant = true → as[i].lag = some 0) ∧
      (as[i].isConstant = false → LeastOverPaths as i as[i].lag) := by
  intro as
  have ha : as[i]? = some as[i] := Array.getElem?_eq_getElem hi
  constructor
  · intro hc
    have hlag := (recorded_of_unit unit ha).lag_eq
    simpa [hc] using hlag
  · exact least_over_paths (fun _ _ h => recorded_of_unit unit h) i _ ha

/-- A future value, an unknown one and a delayed one come together. -/
def mixedText : String := "a = x.shift(-2)\nb = a.shift(1) + y + z.shift(2)\n"

theorem lag_least_over_mixed_paths :
    ∃ unit, SourceUnit.parse mixedText "mixed" = .ok unit ∧
      ∃ h : 1 < (Graph.ofUnit unit).assignments.size,
        (Graph.ofUnit unit).assignments[1].lag = some (-1) ∧
          LeastOverPaths (Graph.ofUnit unit).assignments 1
            (Graph.ofUnit unit).assignments[1].lag := by
  have hfacts : SourceUnit.parsesTo mixedText "mixed" (fun unit => decide
      (∃ h : 1 < (Graph.ofUnit unit).assignments.size,
        (Graph.ofUnit unit).assignments[1].lag = some (-1) ∧
          (Graph.ofUnit unit).assignments[1].isConstant = false)) = true := by
    decide +kernel
  obtain ⟨unit, hparse, hunit⟩ := SourceUnit.parses_to_iff.mp hfacts
  obtain ⟨h, hlag, hconst⟩ := of_decide_eq_true hunit
  exact ⟨unit, hparse, h, hlag, (lag_least_over_paths unit 1 h).2 hconst⟩

end BacktestAudit.Flow
