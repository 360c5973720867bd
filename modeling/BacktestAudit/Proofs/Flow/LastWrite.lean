import BacktestAudit.Proofs.Flow.Sources
import BacktestAudit.Proofs.Flow.Steps
import BacktestAudit.Proofs.Syntax.Parsed
import BacktestAudit.Proofs.Syntax.Placed.Program

/-!
The last write wins. Every read of a statement has its source in the last assignment of its column
before the statement began. So sources come before what reads them, and the edges of a graph tell
of each assignment which sources its reads have.
-/
namespace BacktestAudit.Flow
open BacktestAudit.Syntax BacktestAudit.Source
set_option autoImplicit false

/-! ## The last assignment of a column -/

/-- The greatest index of an assignment that writes a column, or none when no assignment does. -/
def IsLastWrite (as : Array Assignment) (column : Column) : Option Nat → Prop
  | none => ∀ (j : Nat) (a : Assignment), as[j]? = some a → a.target ≠ column
  | some i => (∃ a, as[i]? = some a ∧ a.target = column) ∧
      ∀ (j : Nat) (a : Assignment), i < j → as[j]? = some a → a.target ≠ column

namespace IsLastWrite

variable {as : Array Assignment} {column : Column} {i : Option Nat} {b : Assignment}

theorem lt_size {j : Nat} (h : IsLastWrite as column (some j)) : j < as.size := by
  obtain ⟨⟨a, ha, _⟩, _⟩ := h
  exact (Array.getElem?_eq_some_iff.mp ha).1

/-- An assignment that is pushed writes its own column last. -/
theorem push_same (as : Array Assignment) (b : Assignment) :
    IsLastWrite (as.push b) b.target (some as.size) := by
  refine ⟨⟨b, Array.getElem?_push_size, rfl⟩, ?_⟩
  intro j a hj ha
  have hlt := (Array.getElem?_eq_some_iff.mp ha).1
  rw [Array.size_push] at hlt
  omega

theorem push_other (h : IsLastWrite as column i) (hb : b.target ≠ column) :
    IsLastWrite (as.push b) column i := by
  have hold : ∀ (j : Nat) (a : Assignment), (as.push b)[j]? = some a → a.target = column →
      as[j]? = some a := by
    intro j a ha htarget
    rw [Array.getElem?_push] at ha
    split at ha
    · obtain rfl := Option.some.inj ha
      exact absurd htarget hb
    · exact ha
  cases i with
  | none => exact fun j a ha htarget => h j a (hold j a ha htarget) htarget
  | some i =>
    obtain ⟨⟨a, ha, htarget⟩, hlast⟩ := h
    refine ⟨⟨a, ?_, htarget⟩, fun j c hj hc heq => hlast j c hj (hold j c hc heq) heq⟩
    rw [Array.getElem?_push_lt (Array.getElem?_eq_some_iff.mp ha).1]
    exact congrArg some (Array.getElem?_eq_some_iff.mp ha).2

theorem unique {j : Option Nat} (h : IsLastWrite as column i) (h' : IsLastWrite as column j) :
    i = j := by
  cases i with
  | none =>
    cases j with
    | none => rfl
    | some j =>
      obtain ⟨⟨a, ha, htarget⟩, _⟩ := h'
      exact absurd htarget (h j a ha)
  | some i =>
    obtain ⟨⟨a, ha, htarget⟩, hlast⟩ := h
    cases j with
    | none => exact absurd htarget (h' i a ha)
    | some j =>
      obtain ⟨⟨b, hb, htarget'⟩, hlast'⟩ := h'
      rcases Nat.lt_trichotomy i j with hij | rfl | hij
      · exact absurd htarget' (hlast j b hij hb)
      · rfl
      · exact absurd htarget (hlast' i a hij ha)

end IsLastWrite

/-- The live columns are the last writes. -/
def Progress.Tracked (p : Progress) : Prop :=
  ∀ column, IsLastWrite p.graph.assignments column (p.lastWrite? column)

theorem tracked_start (unit : SourceUnit) : Progress.Tracked ⟨Graph.start unit, []⟩ := by
  intro column j a ha
  simp [Graph.start] at ha

theorem Progress.Tracked.record {p : Progress} (h : p.Tracked) (target : Column) (e : Expr)
    (place : Lines) (reads : List Read) : (p.record target e place reads).Tracked := by
  intro column
  rw [last_write_record]
  split
  · next heq =>
    subst heq
    exact .push_same _ _
  · next heq => exact (h column).push_other (Ne.symm heq)

theorem tracked_invariant : Invariant Progress.Tracked fun _ _ => True where
  absorb := fun _ _ h => h
  derive := fun _ _ h => h
  record := fun _ target e place reads h _ => h.record target e place reads
  resolve := fun _ _ _ => trivial
  read_absorb := fun _ _ _ _ => trivial
  read_derive := fun _ _ _ _ => trivial
  read_record := fun _ _ _ _ _ _ _ _ => trivial

theorem tracked_after (unit : SourceUnit) (steps : List Stmt) :
    (Progress.after unit steps).Tracked :=
  tracked_invariant.visit_all _ _ steps (tracked_start unit)

/-! ## What a statement adds -/

/-- Assignments are added behind those that there are, and what each of them reads is as stated. -/
def Progress.AddsReads (Q : List Read → Prop) (p q : Progress) : Prop :=
  ∃ added : List Assignment,
    q.graph.assignments.toList = p.graph.assignments.toList ++ added ∧ ∀ a ∈ added, Q a.reads

namespace Progress.AddsReads

variable {Q : List Read → Prop} {p q r : Progress}

theorem refl : AddsReads Q p p := ⟨[], (List.append_nil _).symm, nofun⟩

theorem absorb {t : Trace} : AddsReads Q p (p.absorb t) := ⟨[], (List.append_nil _).symm, nofun⟩

theorem trans (h : AddsReads Q p q) (h' : AddsReads Q q r) : AddsReads Q p r := by
  obtain ⟨as, heq, has⟩ := h
  obtain ⟨bs, heq', hbs⟩ := h'
  refine ⟨as ++ bs, by rw [heq', heq, List.append_assoc], fun a ha => ?_⟩
  rcases List.mem_append.mp ha with ha | ha
  · exact has a ha
  · exact hbs a ha

theorem mono {R : List Read → Prop} (h : AddsReads Q p q) (hQ : ∀ rs, Q rs → R rs) :
    AddsReads R p q := by
  obtain ⟨as, heq, has⟩ := h
  exact ⟨as, heq, fun a ha => hQ a.reads (has a ha)⟩

theorem record {target : Column} {e : Expr} {place : Lines} {reads : List Read} (h : Q reads) :
    AddsReads Q p (p.record target e place reads) :=
  ⟨[_], Array.toList_push, List.forall_mem_singleton.mpr h⟩

theorem record_all {e : Expr} {place : Lines} {reads : List Read} (h : Q reads)
    (cs : List Column) : AddsReads Q p (cs.foldl (fun p c => p.record c e place reads) p) := by
  induction cs generalizing p with
  | nil => exact .refl
  | cons c cs ih => exact (AddsReads.record h).trans ih

variable {imported : List String} {place : Lines} {readsOf : List (Part × List Read)}

theorem assign_pair (hnil : Q []) (h : ∀ part reads, (part, reads) ∈ readsOf → Q reads)
    (pair : Expr × Part × Expr) : AddsReads Q p (assignPair imported place readsOf p pair) := by
  obtain ⟨target, part, value⟩ := pair
  have htaken : Q ((readsOf.lookup part).getD []) := by
    cases hlookup : readsOf.lookup part with
    | none => exact hnil
    | some reads =>
      obtain ⟨l₁, l₂, rfl, _⟩ := List.lookup_eq_some_iff.mp hlookup
      exact h part reads (by simp)
  exact record_all htaken (targetColumns imported target)

theorem assign_pairs (hnil : Q []) (h : ∀ part reads, (part, reads) ∈ readsOf → Q reads)
    (pairs : List (Expr × Part × Expr)) :
    AddsReads Q p (pairs.foldl (assignPair imported place readsOf) p) := by
  induction pairs generalizing p with
  | nil => exact .refl
  | cons pair pairs ih => exact (assign_pair hnil h pair).trans ih

/-- An augmented assignment adds a read to those of each column before. -/
theorem augment_all {e : Expr} {at_ : Extent} {cs : List Column}
    (hagain : ∀ (p : Progress) (c : Column) (reads : List Read), c ∈ cs → Q reads →
      Q (reads ++ [p.resolve ⟨c, some 0, at_⟩])) {reads : List Read} (h : Q reads) :
    AddsReads Q p (cs.foldl (fun (p, reads) c =>
      let reads := reads ++ [p.resolve ⟨c, some 0, at_⟩]
      (p.record c e place reads, reads)) (p, reads)).1 := by
  induction cs generalizing p reads with
  | nil => exact .refl
  | cons c cs ih =>
    have hmore := hagain p c reads (List.mem_cons_self ..) h
    have hrest := fun p d reads hd => hagain p d reads (List.mem_cons_of_mem c hd)
    exact (AddsReads.record hmore).trans (ih hrest hmore)

/-- What holds of the reads of every part of a value holds of what an assignment of it adds. -/
theorem assign {targets : List Expr} {value : Expr} (hnil : Q [])
    (h : ∀ part ∈ usedParts (pairTargets targets value),
      Q ((scan imported (some 0) part.2).reads.map p.resolve)) :
    AddsReads Q p (Flow.assign imported place targets value p) := by
  simp only [Flow.assign, absorb_all_eq]
  refine AddsReads.absorb.trans (.assign_pairs hnil ?_ _)
  intro part reads hmem
  obtain ⟨⟨part', t⟩, htrace, heq⟩ := List.mem_map.mp hmem
  obtain ⟨rfl, rfl⟩ := Prod.mk.inj heq
  obtain ⟨used, hused, htrace⟩ := List.mem_map.mp htrace
  obtain ⟨rfl, rfl⟩ := Prod.mk.inj htrace
  exact h used hused

theorem augment {target value : Expr}
    (hagain : ∀ (p : Progress) (c : Column) (reads : List Read),
      c ∈ targetColumns imported target → Q reads →
        Q (reads ++ [p.resolve ⟨c, some 0, target.extent⟩]))
    (h : Q ((scan imported (some 0) value).reads.map p.resolve)) :
    AddsReads Q p (Flow.augment imported place target value p) :=
  AddsReads.absorb.trans (augment_all hagain h)

end Progress.AddsReads

/-- The source of a read is the last write of its column so far. -/
def Progress.Refers (p : Progress) (r : Read) : Prop := r.source = p.lastWrite? r.column

def Progress.AllRefer (p : Progress) (reads : List Read) : Prop := ∀ r ∈ reads, p.Refers r

variable {imported : List String}

theorem assign_adds (place : Lines) (targets : List Expr) (value : Expr) (p : Progress) :
    p.AddsReads p.AllRefer (assign imported place targets value p) := by
  refine .assign nofun fun part _ r hr => ?_
  obtain ⟨o, _, rfl⟩ := List.mem_map.mp hr
  rfl

theorem target_columns_of_single (imported : List String) {e : Expr} (h : e.isSingleTarget = true) :
    targetColumns imported e = [] ∨ ∃ c, targetColumns imported e = [c] := by
  have hoption : ∀ o : Option Column, o.toList = [] ∨ ∃ c, o.toList = [c] := by
    rintro (_ | c)
    · exact .inl rfl
    · exact .inr ⟨c, rfl⟩
  cases e with
  | name x id role => exact .inr ⟨_, rfl⟩
  | member x value attr => exact hoption _
  | subscript x value index => exact hoption _
  | _ => cases h

theorem augment_adds (place : Lines) {target : Expr} (htarget : target.isSingleTarget = true)
    (value : Expr) (p : Progress) :
    p.AddsReads p.AllRefer (augment imported place target value p) := by
  have hvalue : ∀ r ∈ ((scan imported (some 0) value).within p.graph.assignments.size).reads.map
      p.resolve, p.Refers r := by
    intro r hr
    obtain ⟨o, _, rfl⟩ := List.mem_map.mp hr
    rfl
  unfold augment
  rcases target_columns_of_single imported htarget with hcolumns | ⟨c, hcolumns⟩
  · rw [hcolumns]
    exact .refl
  · rw [hcolumns]
    refine .record fun r hr => ?_
    rcases List.mem_append.mp hr with hr | hr
    · exact hvalue r hr
    · rw [List.mem_singleton.mp hr]
      rfl

theorem step_adds (imported : List String) {s : Stmt} (hstep : s.isStep = true)
    (hproper : s.isProper = true) (p : Progress) : p.AddsReads p.AllRefer (visit imported p s) := by
  cases s with
  | assign x targets value => exact assign_adds x.lines targets value p
  | annotate x target typeHint value =>
    cases value with
    | none => exact .refl
    | some v => exact assign_adds x.lines [target] v p
  | augment x target value => exact augment_adds x.lines hproper value p
  | evaluate x value => exact .refl
  | imports x kind names => exact .refl
  | define x kind name signature parts => cases hstep
  | compound x kind parts => cases hstep

/-! ## Edges -/

/-- The second parts of the edges that begin at an assignment. -/
def producers (edges : List (Nat × Option Nat)) (i : Nat) : List (Option Nat) :=
  edges.filterMap fun (reader, source) => if reader = i then some source else none

theorem producers_of_some (g : Graph) (i : Nat) : g.producersOf (some i) = producers g.edges i := by
  simp only [Graph.producersOf, producers, Option.some.injEq]

theorem mem_producers {edges : List (Nat × Option Nat)} {i : Nat} {source : Option Nat} :
    source ∈ producers edges i ↔ (i, source) ∈ edges := by
  simp [producers]

theorem producers_add_other (edges : List (Nat × Option Nat)) {i k : Nat} (source : Option Nat)
    (h : k ≠ i) : producers (Progress.addEdge edges (k, source)) i = producers edges i := by
  unfold Progress.addEdge
  split
  · rfl
  · simp [producers, h]

theorem producers_add_same (edges : List (Nat × Option Nat)) (i : Nat) (source : Option Nat) :
    producers (Progress.addEdge edges (i, source)) i =
      if source ∈ producers edges i then producers edges i else producers edges i ++ [source] := by
  unfold Progress.addEdge
  simp only [mem_producers]
  split
  · rfl
  · simp [producers]

def addEdges (edges : List (Nat × Option Nat)) (i : Nat) (reads : List Read) :
    List (Nat × Option Nat) :=
  reads.foldl (fun es r => Progress.addEdge es (i, r.source)) edges

theorem add_edge_nodup {edges : List (Nat × Option Nat)} (h : edges.Nodup)
    (edge : Nat × Option Nat) : (Progress.addEdge edges edge).Nodup := by
  unfold Progress.addEdge
  split
  · exact h
  · next hnew => exact List.nodup_append.mpr ⟨h, by simp, fun e he f hf heq =>
      hnew (List.mem_singleton.mp hf ▸ heq ▸ he)⟩

theorem add_edges_nodup {edges : List (Nat × Option Nat)} (h : edges.Nodup) (i : Nat)
    (reads : List Read) : (addEdges edges i reads).Nodup := by
  induction reads generalizing edges with
  | nil => exact h
  | cons r reads ih => exact ih (add_edge_nodup h (i, r.source))

theorem producers_add_edges_other (edges : List (Nat × Option Nat)) {i k : Nat} (h : k ≠ i)
    (reads : List Read) : producers (addEdges edges k reads) i = producers edges i := by
  induction reads generalizing edges with
  | nil => rfl
  | cons r reads ih => exact (ih _).trans (producers_add_other edges r.source h)

theorem producers_add_edges (edges : List (Nat × Option Nat)) (i : Nat) (reads : List Read) :
    producers (addEdges edges i reads) i = producers edges i ++
      ((reads.map (·.source)).filter (· ∉ producers edges i)).eraseDups := by
  induction reads generalizing edges with
  | nil => simp [addEdges]
  | cons r reads ih =>
    have hstep := ih (Progress.addEdge edges (i, r.source))
    rw [producers_add_same] at hstep
    rw [List.map_cons]
    by_cases hold : r.source ∈ producers edges i
    · rw [if_pos hold] at hstep
      rw [List.filter_cons_of_neg (by simpa using hold)]
      exact hstep
    · rw [if_neg hold] at hstep
      have hkept : ∀ source, decide (source ∉ producers edges i ++ [r.source]) =
          (!(source == r.source) && decide (source ∉ producers edges i)) := by
        intro source
        by_cases heq : source = r.source <;> simp [heq]
      rw [List.filter_cons_of_pos (by simpa using hold), List.eraseDups_cons, List.filter_filter]
      refine hstep.trans ?_
      simp only [hkept, List.append_assoc, List.singleton_append]

/-- The edges of every assignment lead to the sources of its reads, one edge to each. -/
structure Progress.Linked (p : Progress) : Prop where
  nodup : p.graph.edges.Nodup
  producers_eq : ∀ (i : Nat) (a : Assignment), p.graph.assignments[i]? = some a →
    producers p.graph.edges i = (a.reads.map (·.source)).eraseDups
  bound : ∀ i, p.graph.assignments.size ≤ i → producers p.graph.edges i = []

theorem Progress.Linked.record {p : Progress} (h : p.Linked) (target : Column) (e : Expr)
    (place : Lines) (reads : List Read) : (p.record target e place reads).Linked := by
  have hedges : (p.record target e place reads).graph.edges =
      addEdges p.graph.edges p.graph.assignments.size reads := rfl
  constructor
  · exact add_edges_nodup h.nodup _ reads
  · intro i a ha
    rw [hedges]
    simp only [Progress.record, Array.getElem?_push] at ha
    split at ha
    · next hi =>
      subst hi
      rw [producers_add_edges, h.bound _ (Nat.le_refl _), ← Option.some.inj ha]
      simp
    · next hi => exact (producers_add_edges_other _ (Ne.symm hi) reads).trans (h.producers_eq i a ha)
  · intro i hi
    simp only [Progress.record, Array.size_push] at hi
    rw [hedges, producers_add_edges_other _ (by omega) reads]
    exact h.bound i (by omega)

theorem linked_invariant : Invariant Progress.Linked fun _ _ => True where
  absorb := fun _ _ h => ⟨h.nodup, h.producers_eq, h.bound⟩
  derive := fun _ _ h => ⟨h.nodup, h.producers_eq, h.bound⟩
  record := fun _ target e place reads h _ => h.record target e place reads
  resolve := fun _ _ _ => trivial
  read_absorb := fun _ _ _ _ => trivial
  read_derive := fun _ _ _ _ => trivial
  read_record := fun _ _ _ _ _ _ _ _ => trivial

theorem linked_of_unit (unit : SourceUnit) : (Progress.after unit unit.statements).Linked := by
  refine linked_invariant.visit_all _ _ _ ⟨.nil, ?_, ?_⟩
  · intro i a ha
    simp [Graph.start] at ha
  · intro i _
    rfl

/-! ## Runs of steps -/

/-- An assignment is recorded by a step of a unit that comes behind some others. -/
structure RecordedBy (unit : SourceUnit) (before : List Stmt) (s : Stmt) (i : Nat) : Prop where
  split : ∃ after, Stmt.stepsOfAll unit.statements = before ++ s :: after
  begun : (Progress.after unit before).graph.assignments.size ≤ i
  done : i < (Progress.after unit (before ++ [s])).graph.assignments.size

/-- Every assignment that is there in the end and was not there in the beginning is recorded by a
step in between. -/
theorem exists_step {unit : SourceUnit} {before : List Stmt} {i : Nat} (steps : List Stmt)
    (hbegun : (Progress.after unit before).graph.assignments.size ≤ i)
    (hdone : i < (Progress.after unit (before ++ steps)).graph.assignments.size) :
    ∃ former s later, steps = former ++ s :: later ∧
      (Progress.after unit (before ++ former)).graph.assignments.size ≤ i ∧
      i < (Progress.after unit (before ++ former ++ [s])).graph.assignments.size := by
  induction steps generalizing before with
  | nil =>
    rw [List.append_nil] at hdone
    omega
  | cons s steps ih =>
    by_cases hi : i < (Progress.after unit (before ++ [s])).graph.assignments.size
    · exact ⟨[], s, steps, rfl, by rwa [List.append_nil], by rwa [List.append_nil]⟩
    · rw [List.append_cons] at hdone
      obtain ⟨former, t, later, heq, hle, hlt⟩ := ih (by omega) hdone
      refine ⟨s :: former, t, later, by rw [heq, List.cons_append], ?_, ?_⟩
      · rwa [List.append_cons]
      · rwa [List.append_cons before]

theorem steps_add (unit : SourceUnit) (before steps : List Stmt)
    (hsteps : ∀ s ∈ steps, s.isStep = true ∧ s.isProper = true) :
    (Progress.after unit before).AddsReads (fun _ => True) (Progress.after unit (before ++ steps)) := by
  induction steps generalizing before with
  | nil =>
    rw [List.append_nil]
    exact .refl
  | cons s steps ih =>
    obtain ⟨⟨hstep, hproper⟩, hsteps⟩ := List.forall_mem_cons.mp hsteps
    have hfirst := step_adds (Stmt.definedNamesOfAll unit.statements) hstep hproper
      (Progress.after unit before)
    rw [← after_append] at hfirst
    rw [List.append_cons]
    exact (hfirst.mono fun _ _ => trivial).trans (ih _ hsteps)

/-- What a step of a unit has recorded in the end reads what there was before the step. -/
theorem refers_of_recorded {unit : SourceUnit} {before : List Stmt} {s : Stmt} {i : Nat}
    {a : Assignment}
    (hsteps : ∀ t ∈ Stmt.stepsOfAll unit.statements, t.isStep = true ∧ t.isProper = true)
    (h : RecordedBy unit before s i) (ha : (Graph.ofUnit unit).assignments[i]? = some a) :
    ∀ r ∈ a.reads, (Progress.after unit before).Refers r := by
  obtain ⟨after, hsplit⟩ := h.split
  rw [hsplit, List.forall_mem_append, List.forall_mem_cons] at hsteps
  obtain ⟨_, ⟨hstep, hproper⟩, hafter⟩ := hsteps
  obtain ⟨added, hadded, hreads⟩ := step_adds (Stmt.definedNamesOfAll unit.statements)
    hstep hproper (Progress.after unit before)
  rw [← after_append] at hadded
  obtain ⟨rest, hrest, _⟩ := steps_add unit (before ++ [s]) after hafter
  rw [graph_of_steps, hsplit, List.append_cons, ← Array.getElem?_toList, hrest,
    List.getElem?_append_left (by simpa using h.done), hadded,
    List.getElem?_append_right (by simpa using h.begun)] at ha
  exact hreads a (List.mem_of_getElem? ha)

theorem steps_of_parse {text name : String} {unit : SourceUnit}
    (h : SourceUnit.parse text name = .ok unit) :
    ∀ s ∈ Stmt.stepsOfAll unit.statements, s.isStep = true ∧ s.isProper = true := by
  have hproper := SourceUnit.statements_proper h
  rw [← Stmt.are_proper_steps] at hproper
  exact fun s hs =>
    ⟨Stmt.is_step_of_mem_steps_of_all _ s hs, Stmt.is_proper_of_mem hproper hs⟩

theorem exists_recorded_by (unit : SourceUnit) {i : Nat}
    (hi : i < (Graph.ofUnit unit).assignments.size) :
    ∃ before s, RecordedBy unit before s i := by
  rw [graph_of_steps, ← List.nil_append (Stmt.stepsOfAll _)] at hi
  obtain ⟨before, s, after, heq, hbegun, hdone⟩ := exists_step _ (Nat.zero_le i) hi
  exact ⟨before, s, ⟨after, heq⟩, hbegun, hdone⟩

theorem recorded_stays {unit : SourceUnit} {before : List Stmt} {s : Stmt} {i : Nat}
    (hsteps : ∀ t ∈ Stmt.stepsOfAll unit.statements, t.isStep = true ∧ t.isProper = true)
    (h : RecordedBy unit before s i) :
    (Progress.after unit before).graph.assignments.toList <+:
      (Graph.ofUnit unit).assignments.toList := by
  obtain ⟨after, hsplit⟩ := h.split
  rw [hsplit, List.forall_mem_append] at hsteps
  obtain ⟨added, hadded, _⟩ := steps_add unit before (s :: after) hsteps.2
  rw [graph_of_steps, hsplit, hadded]
  exact List.prefix_append ..

/-- Every read of a program has its source in the last assignment of its column before the statement
that reads it, and comes from outside when there is none. So every edge leads to an earlier
assignment or outside, no edge is there twice, and the producers of an assignment are the sources of
its reads in the order of their first occurrence. -/
theorem reads_take_last_write {text name : String} {unit : SourceUnit}
    (h : SourceUnit.parse text name = .ok unit) :
    let g := Graph.ofUnit unit
    (∀ i < g.assignments.size, ∃ before s, RecordedBy unit before s i) ∧
      (∀ before s i a, RecordedBy unit before s i → g.assignments[i]? = some a →
        (Progress.after unit before).graph.assignments.toList <+: g.assignments.toList ∧
          ∀ r ∈ a.reads,
            IsLastWrite (Progress.after unit before).graph.assignments r.column r.source) ∧
      (∀ i j, (i, some j) ∈ g.edges → j < i) ∧ g.edges.Nodup ∧
      ∀ i a, g.assignments[i]? = some a →
        g.producersOf (some i) = (a.reads.map (·.source)).eraseDups := by
  intro g
  have hsteps := steps_of_parse h
  have hlinked : Progress.Linked (Progress.after unit unit.statements) := linked_of_unit unit
  have hlast : ∀ before s i a, RecordedBy unit before s i → g.assignments[i]? = some a →
      ∀ r ∈ a.reads,
        IsLastWrite (Progress.after unit before).graph.assignments r.column r.source := by
    intro before s i a hby ha r hr
    rw [refers_of_recorded hsteps hby ha r hr]
    exact tracked_after unit before r.column
  have hproducers : ∀ i a, g.assignments[i]? = some a →
      g.producersOf (some i) = (a.reads.map (·.source)).eraseDups := by
    intro i a ha
    rw [producers_of_some]
    exact hlinked.producers_eq i a ha
  -- The producer of an edge was written before the statement began that recorded the reader.
  have hedges : ∀ i j, (i, some j) ∈ g.edges → j < i := by
    intro i j hedge
    have hmem : some j ∈ producers g.edges i := mem_producers.mpr hedge
    have hi : i < g.assignments.size := by
      by_contra hge
      have hnil : producers g.edges i = [] := hlinked.bound i (Nat.le_of_not_lt hge)
      rw [hnil] at hmem
      cases hmem
    have ha : g.assignments[i]? = some g.assignments[i] := Array.getElem?_eq_getElem hi
    rw [← producers_of_some, hproducers i _ ha, List.mem_eraseDups] at hmem
    obtain ⟨r, hr, hsource⟩ := List.mem_map.mp hmem
    obtain ⟨before, s, hby⟩ := exists_recorded_by unit hi
    have hwrite := hlast before s i _ hby ha r hr
    rw [hsource] at hwrite
    exact Nat.lt_of_lt_of_le hwrite.lt_size hby.begun
  exact ⟨fun i hi => exists_recorded_by unit hi,
    fun before s i a hby ha => ⟨recorded_stays hsteps hby, hlast before s i a hby ha⟩,
    hedges, hlinked.nodup, hproducers⟩

/-- A column is written, then read and written by a pair of one statement, and then augmented. -/
def rewrittenText : String :=
  "df[\"a\"] = x\nif y:\n    df[\"a\"], b = df[\"a\"] + 1, df[\"a\"]\n    df[\"a\"] += b\n"

theorem rewritten_reads_take_last_write :
    ∃ unit, SourceUnit.parse rewrittenText "rewritten" = .ok unit ∧
      ∃ before s a, RecordedBy unit before s 3 ∧ (Graph.ofUnit unit).assignments[3]? = some a ∧
        a.reads.map (·.source) = [some 2, some 1] ∧
        (∀ r ∈ a.reads,
          IsLastWrite (Progress.after unit before).graph.assignments r.column r.source) ∧
        (Graph.ofUnit unit).producersOf (some 3) = [some 2, some 1] := by
  have hfacts : SourceUnit.parsesTo rewrittenText "rewritten" (fun unit => decide
      ((Graph.ofUnit unit).assignments[3]?.map (·.reads.map (·.source)) =
        some [some 2, some 1])) = true := by
    decide +kernel
  obtain ⟨unit, hparse, hunit⟩ := SourceUnit.parses_to_iff.mp hfacts
  obtain ⟨a, ha, hsources⟩ := Option.map_eq_some_iff.mp (of_decide_eq_true hunit)
  obtain ⟨hby, hlast, _, _, hproducers⟩ := reads_take_last_write hparse
  obtain ⟨before, s, hby⟩ := hby 3 (Array.getElem?_eq_some_iff.mp ha).1
  refine ⟨unit, hparse, before, s, a, hby, ha, hsources, (hlast before s 3 a hby ha).2, ?_⟩
  rw [hproducers 3 a ha, hsources]
  decide

end BacktestAudit.Flow
