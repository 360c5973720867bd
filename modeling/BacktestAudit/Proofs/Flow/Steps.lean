import BacktestAudit.Proofs.Flow.Sources
import BacktestAudit.Proofs.Syntax.Proper

/-!
The statements of a unit one after the other. Blocks add nothing to a graph beside the statements in
them, so taking in a unit is taking in its steps: the statements without parts, in the order in which
the tree has them.
-/
namespace BacktestAudit.Syntax.Stmt
open BacktestAudit.Source
set_option autoImplicit false

mutual

/-- The statements without parts of a statement. -/
def steps : Stmt → List Stmt
  | define _ _ _ _ parts | compound _ _ parts => stepsOfAll parts
  | s => [s]

def stepsOfAll : List Stmt → List Stmt
  | [] => []
  | s :: ss => steps s ++ stepsOfAll ss

end

mutual

theorem is_proper_steps (s : Stmt) : areProper s.steps = s.isProper := by
  cases s with
  | define x kind name signature parts =>
    rw [steps, isProper]
    exact are_proper_steps parts
  | compound x kind parts =>
    rw [steps, isProper]
    exact are_proper_steps parts
  | assign _ _ _ | annotate _ _ _ _ | augment _ _ _ | evaluate _ _ | imports _ _ _ =>
    simp [steps]

theorem are_proper_steps (ss : List Stmt) :
    areProper (stepsOfAll ss) = areProper ss := by
  cases ss with
  | nil => rfl
  | cons s ss =>
    rw [stepsOfAll, are_proper_append, is_proper_steps s,
      are_proper_steps ss, are_proper_cons]

end

def isStep : Stmt → Bool
  | define .. | compound .. => false
  | _ => true

mutual

theorem is_step_of_mem_steps (s : Stmt) : ∀ t ∈ s.steps, t.isStep = true := by
  cases s with
  | define x kind name signature parts => exact is_step_of_mem_steps_of_all parts
  | compound x kind parts => exact is_step_of_mem_steps_of_all parts
  | assign _ _ _ | annotate _ _ _ _ | augment _ _ _ | evaluate _ _ | imports _ _ _ =>
    simp [steps, isStep]

theorem is_step_of_mem_steps_of_all (ss : List Stmt) : ∀ t ∈ stepsOfAll ss, t.isStep = true := by
  cases ss with
  | nil => simp [stepsOfAll]
  | cons s ss =>
    intro t ht
    rcases List.mem_append.mp ht with ht | ht
    · exact is_step_of_mem_steps s t ht
    · exact is_step_of_mem_steps_of_all ss t ht

end

theorem is_proper_of_mem {s : Stmt} {ss : List Stmt} (h : areProper ss = true)
    (hs : s ∈ ss) : s.isProper = true := by
  induction ss with
  | nil => cases hs
  | cons t ss ih =>
    rw [are_proper_cons, Bool.and_eq_true] at h
    rcases List.mem_cons.mp hs with rfl | hs
    · exact h.1
    · exact ih h.2 hs

end BacktestAudit.Syntax.Stmt

namespace BacktestAudit.Flow
open BacktestAudit.Syntax BacktestAudit.Source
set_option autoImplicit false

variable {imported : List String}

/-! ## Taking over and recording -/

def Trace.joined (ts : List (Part × Trace)) : Trace := ts.foldr (fun t rest => t.2 ++ rest) .empty

theorem Trace.append_empty (t : Trace) : t ++ .empty = t := by
  change Trace.mk (t.reads ++ []) (t.calls ++ []) (t.forward ++ []) (t.leavesRange || false) = t
  rw [List.append_nil, List.append_nil, List.append_nil, Bool.or_false]

theorem Trace.within_append (a b : Trace) (index : Nat) :
    (a ++ b).within index = a.within index ++ b.within index := by
  rw [within, calls_append, forward_append, List.map_append, List.map_append]
  rfl

theorem absorb_absorb (p : Progress) (a b : Trace) :
    (p.absorb a).absorb b = p.absorb (a ++ b) := by
  have hrange : (a ++ b).leavesRange = (a.leavesRange || b.leavesRange) := rfl
  simp only [Progress.absorb, Trace.calls_append, Trace.forward_append, hrange, List.append_assoc,
    Bool.or_assoc]

theorem absorb_all_eq (ts : List (Part × Trace)) (p : Progress) :
    ts.foldl (fun p (_, t) => p.absorb t) p = p.absorb (Trace.joined ts) := by
  induction ts generalizing p with
  | nil => simp [Trace.joined, Progress.absorb, Trace.empty]
  | cons t ts ih => rw [List.foldl_cons, ih, absorb_absorb]; rfl

theorem last_write_record (p : Progress) (target column : Column) (e : Expr) (place : Lines)
    (reads : List Read) : (p.record target e place reads).lastWrite? column =
      if column = target then some p.graph.assignments.size else p.lastWrite? column := by
  by_cases h : column = target
  · simp [Progress.lastWrite?, Progress.record, h]
  · simp [Progress.lastWrite?, Progress.record, List.lookup_cons, h, beq_eq_false_iff_ne.mpr h]

/-- A part of what has been taken that stays when certain columns are recorded. -/
structure Stays {β : Type} (part : Progress → β) (recorded : Column → Prop) : Prop where
  record : ∀ (p : Progress) (c : Column) (e : Expr) (place : Lines) (reads : List Read),
    recorded c → part (p.record c e place reads) = part p
  derive : ∀ (p : Progress) (ds : List Derivation), part (p.derive ds) = part p

namespace Stays

variable {β : Type} {part : Progress → β} {recorded : Column → Prop}

theorem record_all (h : Stays part recorded) {cs : List Column} (hcs : ∀ c ∈ cs, recorded c)
    (e : Expr) (place : Lines) (reads : List Read) (p : Progress) :
    part (cs.foldl (fun p c => p.record c e place reads) p) = part p := by
  induction cs generalizing p with
  | nil => rfl
  | cons c cs ih =>
    obtain ⟨hc, hcs⟩ := List.forall_mem_cons.mp hcs
    exact (ih hcs _).trans (h.record p c e place reads hc)

theorem assign_pairs (h : Stays part recorded) {pairs : List (Expr × Part × Expr)}
    (hpairs : ∀ pair ∈ pairs, ∀ c ∈ targetColumns imported pair.1, recorded c) (place : Lines)
    (readsOf : List (Part × List Read)) (p : Progress) :
    part (pairs.foldl (assignPair imported place readsOf) p) = part p := by
  induction pairs generalizing p with
  | nil => rfl
  | cons pair pairs ih =>
    obtain ⟨target, taken, value⟩ := pair
    obtain ⟨hfirst, hrest⟩ := List.forall_mem_cons.mp hpairs
    refine (ih hrest _).trans ?_
    refine (h.derive _ _).trans ?_
    exact h.record_all hfirst value place _ p

theorem augment_all (h : Stays part recorded) {cs : List Column} (hcs : ∀ c ∈ cs, recorded c)
    (e : Expr) (place : Lines) (at_ : Extent) (p : Progress) (reads : List Read) :
    part (cs.foldl (fun (p, reads) c =>
      let reads := reads ++ [p.resolve ⟨c, some 0, at_⟩]
      (p.record c e place reads, reads)) (p, reads)).1 = part p := by
  induction cs generalizing p reads with
  | nil => rfl
  | cons c cs ih =>
    obtain ⟨hc, hcs⟩ := List.forall_mem_cons.mp hcs
    exact (ih hcs _ _).trans (h.record p c e place _ hc)

end Stays

/-! ## Statements one after the other -/

theorem visit_all_append (p : Progress) (ss ts : List Stmt) :
    visitAll imported p (ss ++ ts) = visitAll imported (visitAll imported p ss) ts := by
  induction ss generalizing p with
  | nil => rw [List.nil_append, visitAll]
  | cons s ss ih => rw [List.cons_append, visitAll, ih, visitAll]

theorem visit_all_singleton (p : Progress) (s : Stmt) :
    visitAll imported p [s] = visit imported p s := by
  rw [visitAll, visitAll]

mutual

theorem visit_steps (p : Progress) (s : Stmt) :
    visitAll imported p s.steps = visit imported p s := by
  cases s with
  | define x kind name signature parts =>
    rw [Stmt.steps, visit]
    exact visit_all_steps p parts
  | compound x kind parts =>
    rw [Stmt.steps, visit]
    exact visit_all_steps p parts
  | assign _ _ _ | annotate _ _ _ _ | augment _ _ _ | evaluate _ _ | imports _ _ _ =>
    exact visit_all_singleton p _

theorem visit_all_steps (p : Progress) (ss : List Stmt) :
    visitAll imported p (Stmt.stepsOfAll ss) = visitAll imported p ss := by
  cases ss with
  | nil => rfl
  | cons s ss =>
    rw [Stmt.stepsOfAll, visit_all_append, visit_steps p s, visit_all_steps _ ss, visitAll]

end

def Progress.after (unit : SourceUnit) (steps : List Stmt) : Progress :=
  visitAll (Stmt.definedNamesOfAll unit.statements) ⟨Graph.start unit, []⟩ steps

theorem graph_of_steps (unit : SourceUnit) :
    Graph.ofUnit unit = (Progress.after unit (Stmt.stepsOfAll unit.statements)).graph := by
  rw [Progress.after, visit_all_steps]
  rfl

theorem after_append (unit : SourceUnit) (ss : List Stmt) (s : Stmt) :
    Progress.after unit (ss ++ [s]) =
      visit (Stmt.definedNamesOfAll unit.statements) (Progress.after unit ss) s := by
  rw [Progress.after, visit_all_append, visit_all_singleton]
  rfl

end BacktestAudit.Flow
