import BacktestAudit.Proofs.Flow.Calls
import BacktestAudit.Proofs.Flow.Steps
import BacktestAudit.Proofs.Syntax.Placed.Program

/-!
What of a unit is scanned for calls: the values of its assignments, as a whole or part by part, and
what is evaluated otherwise. Targets, type hints and the signatures of definitions are passed over.
-/
namespace BacktestAudit.Flow
open BacktestAudit.Syntax BacktestAudit.Source
set_option autoImplicit false

variable {imported : List String}

/-! ## The parts of an assigned value -/

/-- The parts of a value that a target takes: its elements when it is taken apart. -/
def partsOf (value target : Expr) : List (Part × Expr) :=
  match elements? target, elements? value with
  | some ts, some vs =>
    if ts.length = vs.length then vs.mapIdx fun i v => (.element i, v) else [(.whole, value)]
  | _, _ => [(.whole, value)]

theorem map_pair_targets (targets : List Expr) (value : Expr) :
    (pairTargets targets value).map (·.2) = targets.flatMap (partsOf value) := by
  rw [pairTargets, List.map_flatMap]
  congr 1
  funext t
  unfold partsOf
  cases elements? t with
  | none => rfl
  | some ts =>
    cases elements? value with
    | none => rfl
    | some vs =>
      simp only
      split
      · next hlength => exact List.ext_getElem (by simp [hlength]) fun i _ _ => by simp
      · rfl

theorem calls_of_parts (value target : Expr) :
    (partsOf value target).flatMap (·.2.calls) = value.calls := by
  have helements : ∀ vs, elements? value = some vs →
      (vs.mapIdx fun i v => (Part.element i, v)).flatMap (·.2.calls) = value.calls := by
    intro vs hvs
    have hmap : (vs.mapIdx fun i v => (Part.element i, v)).map (·.2) = vs :=
      List.ext_getElem (by simp) fun i _ _ => by simp
    have hcalls : value.calls = Expr.callsOfAll vs := by
      cases value with
      | tuple x es => rw [Expr.calls, Option.some.inj hvs]
      | list x es => rw [Expr.calls, Option.some.inj hvs]
      | _ => cases hvs
    rw [hcalls, Expr.calls_of_all_eq, ← hmap, List.flatMap_map, hmap]
  unfold partsOf
  split
  · next ts vs hts hvs =>
    split
    · exact helements vs hvs
    · exact List.flatMap_singleton ..
  · exact List.flatMap_singleton ..

/-- Adds a part that is not there yet. -/
def addPart (acc : List (Part × Expr)) (part : Part × Expr) : List (Part × Expr) :=
  if acc.any (·.1 = part.1) then acc else acc ++ [part]

theorem used_parts_eq (targets : List Expr) (value : Expr) :
    usedParts (pairTargets targets value) = (targets.flatMap (partsOf value)).foldl addPart [] := by
  rw [← map_pair_targets, List.foldl_map]
  rfl

theorem add_known {acc parts : List (Part × Expr)} (h : ∀ p ∈ parts, p.1 ∈ acc.map (·.1)) :
    parts.foldl addPart acc = acc := by
  induction parts with
  | nil => rfl
  | cons p parts ih =>
    obtain ⟨hp, hparts⟩ := List.forall_mem_cons.mp h
    have hany : acc.any (·.1 = p.1) = true := by simpa using hp
    rw [List.foldl_cons, addPart, if_pos hany]
    exact ih hparts

theorem add_new {acc parts : List (Part × Expr)} (h : ((acc ++ parts).map (·.1)).Nodup) :
    parts.foldl addPart acc = acc ++ parts := by
  induction parts generalizing acc with
  | nil => exact (List.append_nil acc).symm
  | cons p parts ih =>
    rw [List.append_cons] at h ⊢
    have hacc : ((acc ++ [p]).map (·.1)).Nodup :=
      h.sublist ((List.sublist_append_left _ _).map _)
    have hany : ¬ acc.any (·.1 = p.1) = true := by
      intro hany
      obtain ⟨q, hq, heq⟩ := List.any_eq_true.mp hany
      rw [List.map_append, List.map_singleton, List.nodup_append] at hacc
      exact hacc.2.2 q.1 (List.mem_map_of_mem hq) p.1 (List.mem_singleton_self _)
        (of_decide_eq_true heq)
    rw [List.foldl_cons, addPart, if_neg hany]
    exact ih h

theorem parts_of_nodup (value target : Expr) : ((partsOf value target).map (·.1)).Nodup := by
  unfold partsOf
  split
  · split
    · rw [List.Nodup, List.pairwise_iff_getElem]
      intro i j hi hj hij
      simpa using Nat.ne_of_lt hij
    · simp
  · simp

theorem add_parts (value target : Expr) :
    (partsOf value target).foldl addPart [] = partsOf value target := by
  have hnodup : ((([] : List (Part × Expr)) ++ partsOf value target).map (·.1)).Nodup :=
    parts_of_nodup value target
  exact add_new hnodup

theorem subset_add (acc parts : List (Part × Expr)) : acc ⊆ parts.foldl addPart acc := by
  induction parts generalizing acc with
  | nil => exact List.Subset.refl acc
  | cons p parts ih =>
    refine List.Subset.trans ?_ (ih _)
    unfold addPart
    split
    · exact List.Subset.refl acc
    · exact List.subset_append_left ..

theorem add_subset (acc parts : List (Part × Expr)) : parts.foldl addPart acc ⊆ acc ++ parts := by
  induction parts generalizing acc with
  | nil => exact List.subset_append_left ..
  | cons p parts ih =>
    refine List.Subset.trans (ih _) ?_
    unfold addPart
    split
    · exact List.append_subset.mpr ⟨List.subset_append_left .., by simp⟩
    · simp

theorem mem_calls_of_parts {targets : List Expr} (h : targets ≠ []) (value c : Expr) :
    c ∈ (usedParts (pairTargets targets value)).flatMap (·.2.calls) ↔ c ∈ value.calls := by
  obtain ⟨t, ts, rfl⟩ := List.exists_cons_of_ne_nil h
  rw [used_parts_eq]
  constructor
  · intro hc
    obtain ⟨p, hp, hc⟩ := List.mem_flatMap.mp hc
    obtain ⟨u, _, hp⟩ := List.mem_flatMap.mp (add_subset [] _ hp)
    rw [← calls_of_parts value u]
    exact List.mem_flatMap.mpr ⟨p, hp, hc⟩
  · intro hc
    rw [← calls_of_parts value t] at hc
    obtain ⟨p, hp, hc⟩ := List.mem_flatMap.mp hc
    refine List.mem_flatMap.mpr ⟨p, ?_, hc⟩
    rw [List.flatMap_cons, List.foldl_append]
    refine subset_add _ _ ?_
    rw [add_parts]
    exact hp

/-- A value whose targets all take the same parts is evaluated once. -/
def takenAlike (targets : List Expr) (value : Expr) : Prop :=
  ∀ t ∈ targets, ∀ u ∈ targets, (partsOf value t).map (·.1) = (partsOf value u).map (·.1)

instance (targets : List Expr) (value : Expr) : Decidable (takenAlike targets value) :=
  inferInstanceAs (Decidable (∀ t ∈ targets, ∀ u ∈ targets, _ = _))

theorem calls_of_alike {targets : List Expr} (h : targets ≠ []) {value : Expr}
    (halike : takenAlike targets value) :
    (usedParts (pairTargets targets value)).flatMap (·.2.calls) = value.calls := by
  obtain ⟨t, ts, rfl⟩ := List.exists_cons_of_ne_nil h
  -- The first target has taken all parts that the others take.
  rw [used_parts_eq, List.flatMap_cons, List.foldl_append, add_parts, add_known, calls_of_parts]
  intro p hp
  obtain ⟨u, hu, hp⟩ := List.mem_flatMap.mp hp
  rw [halike t (List.mem_cons_self ..) u (List.mem_cons_of_mem t hu)]
  exact List.mem_map_of_mem hp

/-! ## What statements evaluate -/

def values : Stmt → List Expr
  | .assign _ _ value | .augment _ _ value | .evaluate _ value => [value]
  | .annotate _ _ _ value => value.toList
  | .imports .. | .define .. | .compound .. => []

/-- The expressions that are scanned for a step: the parts of an assigned value. -/
def followed : Stmt → List Expr
  | .assign _ targets value => (usedParts (pairTargets targets value)).map (·.2)
  | .annotate _ target _ (some value) => (usedParts (pairTargets [target] value)).map (·.2)
  | .annotate _ _ _ none => []
  | .augment _ _ value | .evaluate _ value => [value]
  | .imports .. | .define .. | .compound .. => []

mutual

/-- Targets, type hints, the defaults of parameters and the keywords of classes, at any depth. -/
def passedOver : Stmt → List Expr
  | .assign _ targets _ => targets
  | .annotate _ target typeHint _ => [target, typeHint]
  | .augment _ target _ => [target]
  | .evaluate .. | .imports .. => []
  | .define _ _ _ signature parts => signature ++ passedOverOfAll parts
  | .compound _ _ parts => passedOverOfAll parts

def passedOverOfAll : List Stmt → List Expr
  | [] => []
  | s :: ss => passedOver s ++ passedOverOfAll ss

end

mutual

theorem expressions_perm (s : Stmt) :
    s.expressions.Perm (passedOver s ++ s.steps.flatMap values) := by
  cases s with
  | assign x targets value => rw [Stmt.expressions, passedOver]; exact .refl _
  | annotate x target typeHint value => simp [Stmt.expressions, passedOver, Stmt.steps, values]
  | augment x target value => rw [Stmt.expressions, passedOver]; exact .refl _
  | evaluate x value => rw [Stmt.expressions, passedOver]; exact .refl _
  | imports x kind names => rw [Stmt.expressions, passedOver]; exact .refl _
  | define x kind name signature parts =>
    rw [Stmt.expressions, passedOver, Stmt.steps, List.append_assoc]
    exact (expressions_of_all_perm parts).append_left signature
  | compound x kind parts =>
    rw [Stmt.expressions, passedOver, Stmt.steps]
    exact expressions_of_all_perm parts

theorem expressions_of_all_perm (ss : List Stmt) :
    (Stmt.expressionsOfAll ss).Perm
      (passedOverOfAll ss ++ (Stmt.stepsOfAll ss).flatMap values) := by
  cases ss with
  | nil => rw [Stmt.expressionsOfAll, passedOverOfAll]; exact .refl _
  | cons s ss =>
    rw [Stmt.expressionsOfAll, passedOverOfAll, Stmt.stepsOfAll, List.flatMap_append]
    refine ((expressions_perm s).append (expressions_of_all_perm ss)).trans ?_
    rw [List.append_assoc, List.append_assoc]
    exact (List.perm_append_comm_assoc ..).append_left _

end

mutual

theorem expressions_of_step (s : Stmt) : ∀ t ∈ s.steps, t.expressions ⊆ s.expressions := by
  cases s with
  | define x kind name signature parts =>
    intro t ht
    rw [Stmt.expressions]
    exact List.subset_append_of_subset_right _ (expressions_of_steps parts t ht)
  | compound x kind parts =>
    intro t ht
    rw [Stmt.expressions]
    exact expressions_of_steps parts t ht
  | assign _ _ _ | annotate _ _ _ _ | augment _ _ _ | evaluate _ _ | imports _ _ _ =>
    exact List.forall_mem_singleton.mpr (List.Subset.refl _)

/-- The expressions of a step stand in the statements that it is a step of. -/
theorem expressions_of_steps (ss : List Stmt) :
    ∀ t ∈ Stmt.stepsOfAll ss, t.expressions ⊆ Stmt.expressionsOfAll ss := by
  cases ss with
  | nil => exact nofun
  | cons s ss =>
    intro t ht
    rw [Stmt.expressionsOfAll]
    rcases List.mem_append.mp ht with ht | ht
    · exact List.subset_append_of_subset_left _ (expressions_of_step s t ht)
    · exact List.subset_append_of_subset_right _ (expressions_of_steps ss t ht)

end

theorem mem_calls_followed {s : Stmt} (h : s.isProper = true) (c : Expr) :
    c ∈ (followed s).flatMap Expr.calls ↔ c ∈ (values s).flatMap Expr.calls := by
  cases s with
  | assign x targets value =>
    have hne : targets ≠ [] := by simpa [Stmt.isProper] using h
    rw [followed, List.flatMap_map, values, List.flatMap_singleton]
    exact mem_calls_of_parts hne value c
  | annotate x target typeHint value =>
    cases value with
    | none => exact Iff.rfl
    | some value =>
      rw [followed, List.flatMap_map, values, Option.toList_some, List.flatMap_singleton]
      exact mem_calls_of_parts (List.cons_ne_nil _ _) value c
  | _ => exact Iff.rfl

/-- The targets of a step take the same parts of its value. -/
def Alike : Stmt → Prop
  | .assign _ targets value => takenAlike targets value
  | _ => True

instance : DecidablePred Alike
  | .assign _ targets value => inferInstanceAs (Decidable (takenAlike targets value))
  | .annotate .. | .augment .. | .evaluate .. | .imports .. | .define .. | .compound .. =>
    isTrue trivial

theorem calls_followed_of_alike {s : Stmt} (h : s.isProper = true) (halike : Alike s) :
    (followed s).flatMap Expr.calls = (values s).flatMap Expr.calls := by
  cases s with
  | assign x targets value =>
    have hne : targets ≠ [] := by simpa [Stmt.isProper] using h
    rw [followed, List.flatMap_map, values, List.flatMap_singleton]
    exact calls_of_alike hne halike
  | annotate x target typeHint value =>
    cases value with
    | none => rfl
    | some value =>
      rw [followed, List.flatMap_map, values, Option.toList_some, List.flatMap_singleton]
      refine calls_of_alike (List.cons_ne_nil _ _) fun t ht u hu => ?_
      rw [List.mem_singleton.mp ht, List.mem_singleton.mp hu]
  | _ => rfl

/-! ## What a graph records -/

theorem RecordsAll.within {t : Trace} {calls : List Expr} (h : RecordsAll imported t.calls calls)
    (i : Nat) : RecordsAll imported (t.within i).calls calls := by
  refine List.forall₂_map_left_iff.mpr (h.imp fun site c hc => ?_)
  cases hc with
  | intro x func arguments receiverReads argReads assignment =>
    exact .intro x func arguments receiverReads argReads (some i)

/-- What is scanned for a step. Unless the step only evaluates, it is linked to the assignment that
comes next. -/
def taken (imported : List String) (index : Nat) (s : Stmt) : Trace :=
  match s with
  | .evaluate .. => scanAll imported (some 0) (followed s)
  | _ => (scanAll imported (some 0) (followed s)).within index

theorem taken_records (index : Nat) (s : Stmt) :
    RecordsAll imported (taken imported index s).calls ((followed s).flatMap Expr.calls) := by
  have hall : RecordsAll imported (scanAll imported (some 0) (followed s)).calls
      ((followed s).flatMap Expr.calls) := by
    rw [← Expr.calls_of_all_eq]
    exact scan_all_records (some 0) (followed s)
  unfold taken
  split
  · exact hall
  · exact hall.within index

theorem joined_scans (parts : List (Part × Expr)) (index : Nat) :
    Trace.joined (parts.map fun (part, e) => (part, (scan imported (some 0) e).within index)) =
      (scanAll imported (some 0) (parts.map (·.2))).within index := by
  induction parts with
  | nil => rfl
  | cons part parts ih =>
    rw [List.map_cons, List.map_cons, scanAll, Trace.within_append, ← ih]
    rfl

theorem scan_all_singleton (shift : Shift) (e : Expr) :
    scanAll imported shift [e] = scan imported shift e := by
  rw [scanAll, scanAll, Trace.append_empty]

/-- A list that grows by what is taken over from scans, and by nothing else. -/
structure Gathers {β : Type} (part : Progress → List β) (field : Trace → List β) : Prop
    extends Stays part fun _ => True where
  start : ∀ unit, part ⟨Graph.start unit, []⟩ = []
  absorb : ∀ p t, part (p.absorb t) = part p ++ field t
  empty : field .empty = []

theorem calls_gathered : Gathers (·.graph.calls) (·.calls) :=
  ⟨⟨fun _ _ _ _ _ _ => rfl, fun _ _ => rfl⟩, fun _ => rfl, fun _ _ => rfl, rfl⟩

theorem forward_gathered : Gathers (·.graph.forward) (·.forward) :=
  ⟨⟨fun _ _ _ _ _ _ => rfl, fun _ _ => rfl⟩, fun _ => rfl, fun _ _ => rfl, rfl⟩

namespace Gathers

variable {β : Type} {part : Progress → List β} {field : Trace → List β} (h : Gathers part field)
include h

theorem assign (place : Lines) (targets : List Expr) (value : Expr) (p : Progress) :
    part (assign imported place targets value p) = part p ++ field
      ((scanAll imported (some 0) ((usedParts (pairTargets targets value)).map (·.2))).within
        p.graph.assignments.size) := by
  unfold Flow.assign
  refine (h.assign_pairs (fun _ _ _ _ => trivial) place _ _).trans ?_
  rw [absorb_all_eq, joined_scans, h.absorb]

theorem step (imported : List String) {s : Stmt} (hstep : s.isStep = true) (p : Progress) :
    part (visit imported p s) =
      part p ++ field (taken imported p.graph.assignments.size s) := by
  have hnone : part p = part p ++ field .empty := by rw [h.empty, List.append_nil]
  cases s with
  | assign x targets value => exact h.assign x.lines targets value p
  | annotate x target typeHint value =>
    cases value with
    | none => exact hnone
    | some value => exact h.assign x.lines [target] value p
  | augment x target value =>
    refine (h.augment_all (fun _ _ => trivial) value x.lines target.extent _ _).trans ?_
    rw [h.absorb, ← scan_all_singleton]
    rfl
  | evaluate x value =>
    rw [visit, evaluate, h.absorb, ← scan_all_singleton]
    rfl
  | imports x kind names => exact hnone
  | define x kind name signature parts => nomatch hstep
  | compound x kind parts => nomatch hstep

/-- Whatever has been gathered in some steps was added by one of them. -/
theorem added {unit : SourceUnit} {steps : List Stmt} (hsteps : ∀ s ∈ steps, s.isStep = true)
    {x : β} (hx : x ∈ part (Progress.after unit steps)) :
    ∃ before s after, steps = before ++ s :: after ∧
      x ∈ field (taken (Stmt.definedNamesOfAll unit.statements)
        (Progress.after unit before).graph.assignments.size s) := by
  induction steps using List.reverseRecOn with
  | nil =>
    have hnone : x ∈ part ⟨Graph.start unit, []⟩ := hx
    rw [h.start] at hnone
    nomatch hnone
  | append_singleton steps s ih =>
    obtain ⟨hold, hstep⟩ := List.forall_mem_append.mp hsteps
    rw [after_append, h.step _ (hstep s (List.mem_singleton_self s))] at hx
    rcases List.mem_append.mp hx with hx | hx
    · obtain ⟨before, t, after, rfl, ht⟩ := ih hold hx
      exact ⟨before, t, after ++ [s], by rw [List.append_assoc, List.cons_append], ht⟩
    · exact ⟨steps, s, [], rfl, hx⟩

end Gathers

theorem steps_record (imported : List String) {steps : List Stmt}
    (hsteps : ∀ s ∈ steps, s.isStep = true) (p : Progress) :
    ∃ sites, (visitAll imported p steps).graph.calls = p.graph.calls ++ sites ∧
      RecordsAll imported sites ((steps.flatMap followed).flatMap Expr.calls) := by
  induction steps generalizing p with
  | nil => exact ⟨[], (List.append_nil _).symm, .nil⟩
  | cons s steps ih =>
    obtain ⟨hstep, hsteps⟩ := List.forall_mem_cons.mp hsteps
    obtain ⟨more, hmore, hrest⟩ := ih hsteps (visit imported p s)
    refine ⟨(taken imported p.graph.assignments.size s).calls ++ more, ?_, ?_⟩
    · rw [visitAll, hmore, calls_gathered.step imported hstep, List.append_assoc]
    · rw [List.flatMap_cons, List.flatMap_append]
      exact (taken_records _ s).append hrest

/-- The expressions that are scanned for the steps of a unit. -/
def scanned (unit : SourceUnit) : List Expr := (Stmt.stepsOfAll unit.statements).flatMap followed

/-- The graph of a unit records the calls of what is scanned, each once and in their order. -/
theorem unit_records (unit : SourceUnit) :
    RecordsAll (Stmt.definedNamesOfAll unit.statements) (Graph.ofUnit unit).calls
      ((scanned unit).flatMap Expr.calls) := by
  obtain ⟨sites, hcalls, hsites⟩ :=
    steps_record (Stmt.definedNamesOfAll unit.statements)
      (Stmt.is_step_of_mem_steps_of_all unit.statements) ⟨Graph.start unit, []⟩
  have hgraph : (Graph.ofUnit unit).calls = sites := by
    rw [graph_of_steps]
    exact hcalls
  rw [hgraph]
  exact hsites

/-! ## The calls of a unit -/

section
variable {text name : String} {unit : SourceUnit} {c : Expr}

/-- The calls of statements are those in what is passed over and those in what steps are evaluated
from. -/
theorem calls_perm (ss : List Stmt) :
    ((Stmt.expressionsOfAll ss).flatMap Expr.calls).Perm ((passedOverOfAll ss).flatMap Expr.calls ++
      ((Stmt.stepsOfAll ss).flatMap values).flatMap Expr.calls) := by
  rw [← List.flatMap_append]
  exact (expressions_of_all_perm ss).flatMap_right Expr.calls

theorem mem_calls_scanned (h : Stmt.areProper unit.statements = true) :
    c ∈ (scanned unit).flatMap Expr.calls ↔
      c ∈ ((Stmt.stepsOfAll unit.statements).flatMap values).flatMap Expr.calls := by
  rw [scanned, List.flatMap_assoc, List.flatMap_assoc, List.mem_flatMap, List.mem_flatMap]
  refine exists_congr fun s => and_congr_right fun hs => ?_
  rw [← Stmt.are_proper_steps] at h
  exact mem_calls_followed (Stmt.is_proper_of_mem h hs) c

theorem mem_calls_of_unit (h : Stmt.areProper unit.statements = true) :
    c ∈ (Stmt.expressionsOfAll unit.statements).flatMap Expr.calls ↔
      c ∈ (passedOverOfAll unit.statements).flatMap Expr.calls ∨
        c ∈ (scanned unit).flatMap Expr.calls := by
  rw [(calls_perm unit.statements).mem_iff, List.mem_append, mem_calls_scanned h]

/-- When no value is taken both as a whole and apart, every call of a unit is in one of both, once. -/
theorem calls_of_unit_perm (h : Stmt.areProper unit.statements = true)
    (halike : ∀ s ∈ Stmt.stepsOfAll unit.statements, Alike s) :
    ((Stmt.expressionsOfAll unit.statements).flatMap Expr.calls).Perm
      ((passedOverOfAll unit.statements).flatMap Expr.calls ++
        (scanned unit).flatMap Expr.calls) := by
  have hsteps : ((Stmt.stepsOfAll unit.statements).flatMap values).flatMap Expr.calls =
      (scanned unit).flatMap Expr.calls := by
    rw [scanned, List.flatMap_assoc, List.flatMap_assoc]
    refine List.flatMap_congr fun s hs => ?_
    rw [← Stmt.are_proper_steps] at h
    exact (calls_followed_of_alike (Stmt.is_proper_of_mem h hs) (halike s hs)).symm
  exact hsteps ▸ calls_perm unit.statements

theorem call_spans_of_unit (h : SourceUnit.parse text name = .ok unit) :
    (((Stmt.expressionsOfAll unit.statements).flatMap Expr.calls).map (·.extent.span)).Nodup := by
  obtain ⟨hplaced, hapart⟩ := SourceUnit.expressions_placed h
  exact Expr.call_spans_nodup (fun e he => (hplaced e he).1) hapart

/-! ## The records of a call -/

/-- The recorded calls that have the span of an expression. -/
def sitesOf (g : Graph) (c : Expr) : List CallSite :=
  g.calls.filter (·.extent.span = c.extent.span)

theorem sites_of_passed_over (h : SourceUnit.parse text name = .ok unit)
    (hc : c ∈ (passedOverOfAll unit.statements).flatMap Expr.calls) :
    sitesOf (Graph.ofUnit unit) c = [] := by
  have hproper := SourceUnit.statements_proper h
  have hspans := ((calls_perm unit.statements).map (·.extent.span)).nodup_iff.mp
    (call_spans_of_unit h)
  rw [List.map_append, List.nodup_append] at hspans
  refine List.filter_eq_nil_iff.mpr fun site hsite hspan => ?_
  have hscanned := List.mem_map_of_mem (f := (·.extent.span)) hsite
  rw [(unit_records unit).spans] at hscanned
  obtain ⟨d, hd, hsame⟩ := List.mem_map.mp hscanned
  have hvalue := (mem_calls_scanned hproper).mp hd
  refine hspans.2.2 _ (List.mem_map_of_mem hc) _ (List.mem_map_of_mem hvalue) ?_
  rw [hsame]
  exact (of_decide_eq_true hspan).symm

/-- When no value is taken both as a whole and apart, one record is made of a call that is scanned. -/
theorem sites_of_scanned (h : SourceUnit.parse text name = .ok unit)
    (halike : ∀ s ∈ Stmt.stepsOfAll unit.statements, Alike s)
    (hc : c ∈ (scanned unit).flatMap Expr.calls) :
    ∃ site, sitesOf (Graph.ofUnit unit) c = [site] ∧
      Records (Stmt.definedNamesOfAll unit.statements) site c := by
  have hperm := calls_of_unit_perm (SourceUnit.statements_proper h) halike
  have hspans := (hperm.map (·.extent.span)).nodup_iff.mp (call_spans_of_unit h)
  rw [List.map_append, List.nodup_append] at hspans
  exact (unit_records unit).site hspans.2.1 hc

end
end BacktestAudit.Flow
