import BacktestAudit.Proofs.Flow.LastWrite
import BacktestAudit.Proofs.Syntax.Parsed
import Mathlib.Logic.Relation

/-!
What is constant. Constancy is decided when an assignment is recorded, from what its reads say of
their sources; on the whole graph it means that no way leads from the assignment to what comes from
outside.
-/
namespace BacktestAudit.Flow
open BacktestAudit.Syntax
set_option autoImplicit false

/-! ## Ways -/

/-- The assignments that a graph holds, and the outside, joined by its edges. -/
def Graph.Edge (g : Graph) (source target : Option Nat) : Prop :=
  ∃ i, source = some i ∧ (i, target) ∈ g.edges

/-- A way along one edge or more. -/
def Graph.Way (g : Graph) : Option Nat → Option Nat → Prop := Relation.TransGen g.Edge

/-- A way from an assignment to the outside begins with the edge of one of its reads, and is done
there or goes on from the source. -/
theorem way_outside_iff {g : Graph} {i : Nat} : g.Way (some i) none ↔
    (i, none) ∈ g.edges ∨ ∃ j, (i, some j) ∈ g.edges ∧ g.Way (some j) none := by
  constructor
  · intro hway
    obtain ⟨next, ⟨_, ⟨⟩, hedge⟩, hrest⟩ := Relation.TransGen.head'_iff.mp hway
    cases next with
    | none => exact .inl hedge
    | some j =>
      rcases Relation.reflTransGen_iff_eq_or_transGen.mp hrest with heq | hrest
      · cases heq
      · exact .inr ⟨j, hedge, hrest⟩
  · rintro (hedge | ⟨j, hedge, hrest⟩)
    · exact .single ⟨i, rfl, hedge⟩
    · exact .head ⟨i, rfl, hedge⟩ hrest

/-! ## Edges and reads -/

theorem mem_edges_of_unit (unit : SourceUnit) {i : Nat} {target : Option Nat} :
    (i, target) ∈ (Graph.ofUnit unit).edges ↔
      ∃ a, (Graph.ofUnit unit).assignments[i]? = some a ∧ ∃ r ∈ a.reads, r.source = target := by
  have hlinked : Progress.Linked (Progress.after unit unit.statements) := linked_of_unit unit
  rw [← mem_producers]
  cases ha : (Graph.ofUnit unit).assignments[i]? with
  | none =>
    have hnil : producers (Graph.ofUnit unit).edges i = [] :=
      hlinked.bound i (Array.getElem?_eq_none_iff.mp ha)
    rw [hnil]
    exact iff_of_false List.not_mem_nil nofun
  | some a =>
    have hproducers : producers (Graph.ofUnit unit).edges i = _ := hlinked.producers_eq i a ha
    rw [hproducers, List.mem_eraseDups, List.mem_map]
    constructor
    · exact fun hread => ⟨a, rfl, hread⟩
    · rintro ⟨_, ⟨⟩, hread⟩
      exact hread

/-! ## Constancy -/

variable {as : Array Assignment}

theorem constant_iff_reads {a : Assignment} {i : Nat} (ha : a.Recorded as i) :
    a.isConstant = true ↔ ∀ r ∈ a.reads, r.sourceIsConstant = true := by
  rw [ha.isConstant_eq, List.isEmpty_iff, List.filter_eq_nil_iff]
  simp only [Bool.not_eq_true', Bool.not_eq_false]

theorem constant_source_iff {i : Nat} {r : Read} (hr : Sourced as i r) :
    r.sourceIsConstant = true ↔
      ∃ j b, r.source = some j ∧ j < i ∧ as[j]? = some b ∧ b.isConstant = true := by
  unfold Sourced at hr
  cases hs : r.source with
  | none =>
    simp only [hs] at hr
    rw [hr.2]
    exact iff_of_false Bool.false_ne_true nofun
  | some j =>
    simp only [hs] at hr
    obtain ⟨hj, b, hb, -, hconst⟩ := hr
    rw [hconst]
    constructor
    · exact fun h => ⟨j, b, rfl, hj, hb, h⟩
    · rintro ⟨_, b', ⟨⟩, -, hb', h⟩
      rwa [Option.some.inj (hb.symm.trans hb')]

theorem constant_iff_no_way (unit : SourceUnit) (i : Nat) :
    ∀ a, (Graph.ofUnit unit).assignments[i]? = some a →
      (a.isConstant = true ↔ ¬ (Graph.ofUnit unit).Way (some i) none) := by
  -- Sources come before what reads them, so the induction is on the index.
  induction i using Nat.strongRecOn with
  | ind i ih =>
    intro a ha
    have hrecorded := recorded_of_unit unit ha
    rw [constant_iff_reads hrecorded, way_outside_iff]
    constructor
    · rintro hall (hedge | ⟨j, hedge, hway⟩)
      · obtain ⟨_, ha', r, hr, hs⟩ := (mem_edges_of_unit unit).mp hedge
        obtain rfl := Option.some.inj (ha.symm.trans ha')
        obtain ⟨j, _, hs', -⟩ := (constant_source_iff (hrecorded.sourced r hr)).mp (hall r hr)
        rw [hs] at hs'
        cases hs'
      · obtain ⟨_, ha', r, hr, hs⟩ := (mem_edges_of_unit unit).mp hedge
        obtain rfl := Option.some.inj (ha.symm.trans ha')
        obtain ⟨j', b, hs', hj, hb, hconst⟩ :=
          (constant_source_iff (hrecorded.sourced r hr)).mp (hall r hr)
        obtain rfl := Option.some.inj (hs.symm.trans hs')
        exact (ih j hj b hb).mp hconst hway
    · intro hnone r hr
      have hsrc := hrecorded.sourced r hr
      have hedge := (mem_edges_of_unit unit).mpr ⟨a, ha, r, hr, rfl⟩
      rw [constant_source_iff hsrc]
      cases hs : r.source with
      | none => exact absurd (.inl (hs ▸ hedge)) hnone
      | some j =>
        simp only [Sourced, hs] at hsrc
        obtain ⟨hj, b, hb, -, -⟩ := hsrc
        refine ⟨j, b, rfl, hj, hb, (ih j hj b hb).mpr fun hway => hnone ?_⟩
        exact .inr ⟨j, hs ▸ hedge, hway⟩

/-- Constancy on the graph of a unit: an assignment is constant exactly when no way along the edges
leads from it to the outside, and a read comes from a constant exactly when its source is an
assignment from which none does. -/
theorem constant_means_no_way_outside (unit : SourceUnit) :
    let g := Graph.ofUnit unit
    ∀ i a, g.assignments[i]? = some a →
      (a.isConstant = true ↔ ¬ g.Way (some i) none) ∧
        ∀ r ∈ a.reads, (r.sourceIsConstant = true ↔
          ∃ j < g.assignments.size, r.source = some j ∧ ¬ g.Way (some j) none) := by
  intro g i a ha
  refine ⟨constant_iff_no_way unit i a ha, fun r hr => ?_⟩
  rw [constant_source_iff ((recorded_of_unit unit ha).sourced r hr)]
  constructor
  · rintro ⟨j, b, hs, -, hb, hconst⟩
    exact ⟨j, (Array.getElem?_eq_some_iff.mp hb).1, hs, (constant_iff_no_way unit j b hb).mp hconst⟩
  · rintro ⟨j, hj, hs, hnone⟩
    have hb : g.assignments[j]? = some g.assignments[j] := Array.getElem?_eq_getElem hj
    have hsrc := (recorded_of_unit unit ha).sourced r hr
    simp only [Sourced, hs] at hsrc
    exact ⟨j, _, hs, hsrc.1, hb, (constant_iff_no_way unit j _ hb).mpr hnone⟩

/-- A column holds a constant, is read, and is then written from outside; both values meet in the
last line. -/
def overwrittenText : String := "a = 1\nb = a\na = x\nc = a + b\n"

theorem overwritten_constant_has_no_way :
    ∃ unit, SourceUnit.parse overwrittenText "overwritten" = .ok unit ∧
      ∃ b c, (Graph.ofUnit unit).assignments[1]? = some b ∧
        (Graph.ofUnit unit).assignments[3]? = some c ∧
        ¬ (Graph.ofUnit unit).Way (some 1) none ∧ (Graph.ofUnit unit).Way (some 3) none ∧
        c.reads.map (·.source) = [some 2, some 1] ∧
        ∀ r ∈ c.reads, (r.sourceIsConstant = true ↔
          ∃ j < (Graph.ofUnit unit).assignments.size, r.source = some j ∧
            ¬ (Graph.ofUnit unit).Way (some j) none) := by
  have hfacts : SourceUnit.parsesTo overwrittenText "overwritten" (fun unit => decide
      ((Graph.ofUnit unit).assignments[1]?.map (·.isConstant) = some true ∧
        (Graph.ofUnit unit).assignments[3]?.map (fun c => (c.isConstant, c.reads.map (·.source))) =
          some (false, [some 2, some 1]))) = true := by
    decide +kernel
  obtain ⟨unit, hparse, hunit⟩ := SourceUnit.parses_to_iff.mp hfacts
  obtain ⟨hb, hc⟩ := of_decide_eq_true hunit
  obtain ⟨b, hb, hconst⟩ := Option.map_eq_some_iff.mp hb
  obtain ⟨c, hc, hrest⟩ := Option.map_eq_some_iff.mp hc
  obtain ⟨hinformed, hsources⟩ := Prod.mk.inj hrest
  obtain ⟨hway, hreads⟩ := constant_means_no_way_outside unit 3 c hc
  refine ⟨unit, hparse, b, c, hb, hc,
    (constant_means_no_way_outside unit 1 b hb).1.mp hconst, ?_, hsources, hreads⟩
  by_contra hnone
  rw [hway.mpr hnone] at hinformed
  cases hinformed

end BacktestAudit.Flow
