import BacktestAudit.Flow.Graph

/-!
What the graph of a unit says of its reads. An invariant of what has been taken into the graph is
carried through every statement list by what it says of three steps: taking over a scan, recording an
assignment, and referring a read to its source. By it every read tells the lag and the constancy of
the earlier assignment that it comes from.
-/
namespace BacktestAudit.Flow
open BacktestAudit.Syntax BacktestAudit.Source
set_option autoImplicit false

/-! ## Invariants of statement lists -/

/-- Adds derivations to what has been taken into the graph. -/
def Progress.derive (p : Progress) (ds : List Derivation) : Progress :=
  { p with graph := { p.graph with derivations := p.graph.derivations ++ ds } }

theorem exists_of_mem_lookup {readsOf : List (Part × List Read)} {part : Part} {r : Read}
    (h : r ∈ (readsOf.lookup part).getD []) : ∃ reads, (part, reads) ∈ readsOf ∧ r ∈ reads := by
  cases hl : readsOf.lookup part with
  | none => simp [hl] at h
  | some reads =>
    rw [hl, Option.getD_some] at h
    obtain ⟨l₁, l₂, hl, _⟩ := List.lookup_eq_some_iff.mp hl
    exact ⟨reads, by simp [hl], h⟩

/-- A property of what has been taken into a graph, and one of the reads referred to it, that the
steps of every statement keep. -/
structure Invariant (P : Progress → Prop) (Q : Progress → Read → Prop) : Prop where
  absorb : ∀ p t, P p → P (p.absorb t)
  derive : ∀ p ds, P p → P (p.derive ds)
  record : ∀ p target e place reads, P p → (∀ r ∈ reads, Q p r) →
    P (p.record target e place reads)
  resolve : ∀ p o, P p → Q p (p.resolve o)
  read_absorb : ∀ p t r, Q p r → Q (p.absorb t) r
  read_derive : ∀ p ds r, Q p r → Q (p.derive ds) r
  read_record : ∀ p target e place reads r, P p → Q p r → Q (p.record target e place reads) r

namespace Invariant

variable {P : Progress → Prop} {Q : Progress → Read → Prop} (inv : Invariant P Q)
include inv

theorem absorb_all (ts : List (Part × Trace)) (p : Progress) (hp : P p) :
    P (ts.foldl (fun p (_, t) => p.absorb t) p) ∧
      ∀ r, Q p r → Q (ts.foldl (fun p (_, t) => p.absorb t) p) r := by
  induction ts generalizing p with
  | nil => exact ⟨hp, fun r hr => hr⟩
  | cons t ts ih =>
    obtain ⟨hP, hQ⟩ := ih (p.absorb t.2) (inv.absorb p t.2 hp)
    exact ⟨hP, fun r hr => hQ r (inv.read_absorb p t.2 r hr)⟩

theorem record_all (cs : List Column) (e : Expr) (place : Lines) (reads : List Read) (p : Progress)
    (hp : P p) (hreads : ∀ r ∈ reads, Q p r) :
    P (cs.foldl (fun p c => p.record c e place reads) p) ∧
      ∀ r, Q p r → Q (cs.foldl (fun p c => p.record c e place reads) p) r := by
  induction cs generalizing p with
  | nil => exact ⟨hp, fun r hr => hr⟩
  | cons c cs ih =>
    have hstep := fun r => inv.read_record p c e place reads r hp
    obtain ⟨hP, hQ⟩ := ih (p.record c e place reads) (inv.record p c e place reads hp hreads)
      (fun r hr => hstep r (hreads r hr))
    exact ⟨hP, fun r hr => hQ r (hstep r hr)⟩

theorem assign_pair (imported : List String) (place : Lines) (readsOf : List (Part × List Read))
    (p : Progress) (pair : Expr × Part × Expr) (hp : P p)
    (hreads : ∀ part reads, (part, reads) ∈ readsOf → ∀ r ∈ reads, Q p r) :
    P (assignPair imported place readsOf p pair) ∧
      ∀ r, Q p r → Q (assignPair imported place readsOf p pair) r := by
  obtain ⟨target, part, value⟩ := pair
  have htaken : ∀ r ∈ (readsOf.lookup part).getD [], Q p r := by
    intro r hr
    obtain ⟨reads, hmem, hr⟩ := exists_of_mem_lookup hr
    exact hreads part reads hmem r hr
  obtain ⟨hP, hQ⟩ := inv.record_all (targetColumns imported target) value place _ p hp htaken
  exact ⟨inv.derive _ _ hP, fun r hr => inv.read_derive _ _ r (hQ r hr)⟩

theorem assign_pairs (imported : List String) (place : Lines) (readsOf : List (Part × List Read))
    (pairs : List (Expr × Part × Expr)) (p : Progress) (hp : P p)
    (hreads : ∀ part reads, (part, reads) ∈ readsOf → ∀ r ∈ reads, Q p r) :
    P (pairs.foldl (assignPair imported place readsOf) p) := by
  induction pairs generalizing p with
  | nil => exact hp
  | cons pair pairs ih =>
    obtain ⟨hP, hQ⟩ := inv.assign_pair imported place readsOf p pair hp hreads
    exact ih _ hP fun part reads hmem r hr => hQ r (hreads part reads hmem r hr)

theorem assign (imported : List String) (place : Lines) (targets : List Expr) (value : Expr)
    (p : Progress) (hp : P p) : P (Flow.assign imported place targets value p) := by
  unfold Flow.assign
  obtain ⟨hP, hQ⟩ := inv.absorb_all ((usedParts (pairTargets targets value)).map
    fun pe => (pe.1, (scan imported (some 0) pe.2).within p.graph.assignments.size)) p hp
  -- All parts are referred to what there was before the statement.
  refine inv.assign_pairs imported place _ _ _ hP ?_
  intro part reads hmem r hr
  obtain ⟨⟨part', t⟩, _, heq⟩ := List.mem_map.mp hmem
  obtain ⟨o, _, rfl⟩ := List.mem_map.mp ((Prod.mk.inj heq).2 ▸ hr)
  exact hQ _ (inv.resolve p o hp)

theorem augment_all (cs : List Column) (e : Expr) (place : Lines) (at_ : Extent) (p : Progress)
    (reads : List Read) (hp : P p) (hreads : ∀ r ∈ reads, Q p r) :
    P (cs.foldl (fun (p, reads) c =>
      let reads := reads ++ [p.resolve ⟨c, some 0, at_⟩]
      (p.record c e place reads, reads)) (p, reads)).1 := by
  induction cs generalizing p reads with
  | nil => exact hp
  | cons c cs ih =>
    have hall : ∀ r ∈ reads ++ [p.resolve ⟨c, some 0, at_⟩], Q p r := by
      intro r hr
      rcases List.mem_append.mp hr with hr | hr
      · exact hreads r hr
      · rw [List.mem_singleton.mp hr]
        exact inv.resolve p _ hp
    exact ih _ _ (inv.record p c e place _ hp hall)
      fun r hr => inv.read_record p c e place _ r hp (hall r hr)

theorem augment (imported : List String) (place : Lines) (target value : Expr) (p : Progress)
    (hp : P p) : P (Flow.augment imported place target value p) := by
  refine inv.augment_all _ value place target.extent _ _ (inv.absorb p _ hp) ?_
  intro r hr
  obtain ⟨o, _, rfl⟩ := List.mem_map.mp hr
  exact inv.read_absorb p _ _ (inv.resolve p o hp)

end Invariant

mutual

theorem Invariant.visit {P : Progress → Prop} {Q : Progress → Read → Prop} (inv : Invariant P Q)
    (imported : List String) (p : Progress) (s : Stmt) (hp : P p) : P (Flow.visit imported p s) := by
  cases s with
  | assign e targets value => exact inv.assign imported e.lines targets value p hp
  | annotate e target typeHint value =>
    cases value with
    | none => exact hp
    | some v => exact inv.assign imported e.lines [target] v p hp
  | augment e target value => exact inv.augment imported e.lines target value p hp
  | evaluate e value => exact inv.absorb p _ hp
  | imports e kind names => exact hp
  | define e kind name signature parts => exact inv.visit_all imported p parts hp
  | compound e kind parts => exact inv.visit_all imported p parts hp

theorem Invariant.visit_all {P : Progress → Prop} {Q : Progress → Read → Prop} (inv : Invariant P Q)
    (imported : List String) (p : Progress) (ss : List Stmt) (hp : P p) :
    P (visitAll imported p ss) := by
  cases ss with
  | nil => exact hp
  | cons s ss => exact inv.visit_all imported _ ss (inv.visit imported p s hp)

end

/-! ## Reads and their sources -/

/-- A read of the assignment with an index says what there is to say of its source: an assignment
before that one, whose lag and constancy it takes over, or nothing, for a column from outside. -/
def Sourced (as : Array Assignment) (index : Nat) (r : Read) : Prop :=
  match r.source with
  | none => r.lag = Lag.shifted Lag.unknown r.shift ∧ r.sourceIsConstant = false
  | some j => j < index ∧ ∃ b, as[j]? = some b ∧ r.lag = Lag.shifted b.lag r.shift ∧
      r.sourceIsConstant = b.isConstant

/-- What an assignment reads, and how its lag and constancy follow from that. -/
structure Assignment.Recorded (as : Array Assignment) (index : Nat) (a : Assignment) : Prop where
  sourced : ∀ r ∈ a.reads, Sourced as index r
  isConstant_eq : a.isConstant = (a.reads.filter (!·.sourceIsConstant)).isEmpty
  lag_eq : a.lag = if a.isConstant then some 0
    else Lag.combine ((a.reads.filter (!·.sourceIsConstant)).map (·.lag))

/-- Every assignment is recorded from sourced reads, and every live column was written. -/
structure Progress.Recorded (p : Progress) : Prop where
  live_lt : ∀ c j, (c, j) ∈ p.live → j < p.graph.assignments.size
  recorded : ∀ (i : Nat) (a : Assignment), p.graph.assignments[i]? = some a →
    a.Recorded p.graph.assignments i

theorem Sourced.push {as : Array Assignment} {index : Nat} {r : Read} (b : Assignment)
    (h : Sourced as index r) : Sourced (as.push b) index r := by
  unfold Sourced at h ⊢
  cases hs : r.source with
  | none => simpa [hs] using h
  | some j =>
    simp only [hs] at h ⊢
    obtain ⟨hj, c, hc, hlag, hconst⟩ := h
    have hlt := (Array.getElem?_eq_some_iff.mp hc).1
    refine ⟨hj, c, ?_, hlag, hconst⟩
    rw [Array.getElem?_push_lt hlt]
    exact Array.getElem?_eq_getElem hlt ▸ hc

theorem Sourced.mono {as : Array Assignment} {i j : Nat} {r : Read} (hij : i ≤ j)
    (h : Sourced as i r) : Sourced as j r := by
  unfold Sourced at h ⊢
  cases hs : r.source with
  | none => simpa [hs] using h
  | some k =>
    simp only [hs] at h ⊢
    exact ⟨Nat.lt_of_lt_of_le h.1 hij, h.2⟩

theorem Assignment.Recorded.push {as : Array Assignment} {index : Nat} {a : Assignment}
    (b : Assignment) (h : a.Recorded as index) : a.Recorded (as.push b) index :=
  ⟨fun r hr => (h.sourced r hr).push b, h.isConstant_eq, h.lag_eq⟩

theorem Progress.Recorded.resolve {p : Progress} (h : p.Recorded) (o : Occurrence) :
    Sourced p.graph.assignments p.graph.assignments.size (p.resolve o) := by
  unfold Sourced
  cases hl : p.lastWrite? o.column with
  | none => simp [Progress.resolve, hl]
  | some j =>
    obtain ⟨l₁, l₂, hlive, _⟩ := List.lookup_eq_some_iff.mp hl
    have hj : j < p.graph.assignments.size := h.live_lt o.column j (by simp [hlive])
    simp [Progress.resolve, hl, hj]

theorem Progress.Recorded.record {p : Progress} (h : p.Recorded) (target : Column) (e : Expr)
    (place : Lines) (reads : List Read)
    (hreads : ∀ r ∈ reads, Sourced p.graph.assignments p.graph.assignments.size r) :
    (p.record target e place reads).Recorded := by
  constructor
  · intro c j hmem
    simp only [Progress.record, Array.size_push, List.mem_cons, Prod.mk.injEq] at hmem ⊢
    rcases hmem with ⟨_, rfl⟩ | hmem
    · omega
    · have := h.live_lt c j hmem
      omega
  · intro i a ha
    simp only [Progress.record] at ha ⊢
    rcases Nat.lt_trichotomy i p.graph.assignments.size with hi | rfl | hi
    · rw [Array.getElem?_push_lt hi] at ha
      exact (h.recorded i a (by rw [Array.getElem?_eq_getElem hi]; exact ha)).push _
    · rw [Array.getElem?_push_size] at ha
      obtain rfl := Option.some.inj ha
      exact ⟨fun r hr => (hreads r hr).push _, rfl, rfl⟩
    · rw [Array.getElem?_eq_none (by rw [Array.size_push]; omega)] at ha
      simp at ha

theorem recorded_invariant : Invariant Progress.Recorded
    fun p r => Sourced p.graph.assignments p.graph.assignments.size r where
  absorb := fun _ _ h => ⟨h.live_lt, h.recorded⟩
  derive := fun _ _ h => ⟨h.live_lt, h.recorded⟩
  record := fun _ target e place reads h hreads => h.record target e place reads hreads
  resolve := fun _ o h => h.resolve o
  read_absorb := fun _ _ _ h => h
  read_derive := fun _ _ _ h => h
  read_record := fun p target e place reads r _ h => by
    simp only [Progress.record, Array.size_push]
    exact (h.push _).mono (Nat.le_succ _)

theorem recorded_of_unit (unit : SourceUnit) {i : Nat} {a : Assignment}
    (h : (Graph.ofUnit unit).assignments[i]? = some a) :
    a.Recorded (Graph.ofUnit unit).assignments i := by
  have hstart : Progress.Recorded ⟨Graph.start unit, []⟩ := by
    constructor
    · intro c j hmem
      simp at hmem
    · intro i a ha
      simp [Graph.start] at ha
  exact (recorded_invariant.visit_all _ _ unit.statements hstart).recorded i a h

end BacktestAudit.Flow
