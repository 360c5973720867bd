import BacktestAudit.Proofs.Flow.Origins
import BacktestAudit.Proofs.Syntax.Parsed

/-!
Links of calls and of subscripts that look ahead. What stands in a value is linked to the assignment
that comes next, which is the first that its statement records; this one holds it unless another part
of the value is recorded first, or nothing is.
-/
namespace BacktestAudit.Flow
open BacktestAudit.Syntax BacktestAudit.Source
set_option autoImplicit false

variable {imported : List String}

/-- A call, or a subscript that looks ahead, at a place is linked to an assignment. -/
def Graph.Links (g : Graph) (x : Extent) (i : Nat) : Prop :=
  (∃ c ∈ g.calls, c.extent = x ∧ c.assignment = some i) ∨
    ∃ f ∈ g.forward, f.extent = x ∧ f.assignment = some i

/-- A place lies within an expression. -/
def Encloses (e : Expr) (x : Extent) : Prop := e.extent.start ≤ x.start ∧ x.stop ≤ e.extent.stop

/-- There is an assignment with an index, and a place lies within its expression. -/
def Graph.Holds (g : Graph) (i : Nat) (x : Extent) : Prop :=
  ∃ a, g.assignments[i]? = some a ∧ Encloses a.expression x

/-! ## Expressions that are recorded -/

/-- For every column of a target, the part of the value that the target takes. -/
def partsWritten (imported : List String) (pairs : List (Expr × Part × Expr)) : List Expr :=
  pairs.flatMap fun (t, _, e) => (targetColumns imported t).map fun _ => e

def written (imported : List String) : Stmt → List Expr
  | .assign _ targets value => partsWritten imported (pairTargets targets value)
  | .annotate _ target _ (some value) => partsWritten imported (pairTargets [target] value)
  | .augment _ target value => (targetColumns imported target).map fun _ => value
  | _ => []

def Progress.expressions (p : Progress) : List Expr :=
  p.graph.assignments.toList.map (·.expression)

theorem expressions_record (p : Progress) (c : Column) (e : Expr) (place : Lines)
    (reads : List Read) : (p.record c e place reads).expressions = p.expressions ++ [e] := by
  simp only [Progress.expressions, Progress.record, Array.toList_push, List.map_append,
    List.map_singleton]

theorem expressions_record_all (cs : List Column) (e : Expr) (place : Lines) (reads : List Read)
    (p : Progress) : (cs.foldl (fun p c => p.record c e place reads) p).expressions =
      p.expressions ++ cs.map fun _ => e := by
  induction cs generalizing p with
  | nil => exact (List.append_nil _).symm
  | cons c cs ih =>
    rw [List.foldl_cons, ih, expressions_record, List.append_assoc]
    rfl

theorem expressions_assign_pairs (place : Lines) (readsOf : List (Part × List Read))
    (pairs : List (Expr × Part × Expr)) (p : Progress) :
    (pairs.foldl (assignPair imported place readsOf) p).expressions =
      p.expressions ++ partsWritten imported pairs := by
  induction pairs generalizing p with
  | nil => exact (List.append_nil _).symm
  | cons pair pairs ih =>
    obtain ⟨t, part, e⟩ := pair
    have hpair : (assignPair imported place readsOf p (t, part, e)).expressions =
        p.expressions ++ (targetColumns imported t).map fun _ => e :=
      expressions_record_all _ e place _ p
    rw [List.foldl_cons, ih, hpair, List.append_assoc]
    rfl

theorem expressions_assign (place : Lines) (targets : List Expr) (value : Expr) (p : Progress) :
    (assign imported place targets value p).expressions =
      p.expressions ++ partsWritten imported (pairTargets targets value) := by
  simp only [assign, absorb_all_eq]
  exact expressions_assign_pairs place _ _ _

theorem expressions_augment_all (cs : List Column) (e : Expr) (place : Lines) (at_ : Extent)
    (p : Progress) (reads : List Read) :
    (cs.foldl (fun (p, reads) c =>
      let reads := reads ++ [p.resolve ⟨c, some 0, at_⟩]
      (p.record c e place reads, reads)) (p, reads)).1.expressions =
      p.expressions ++ cs.map fun _ => e := by
  induction cs generalizing p reads with
  | nil => exact (List.append_nil _).symm
  | cons c cs ih =>
    refine (ih _ _).trans ?_
    rw [expressions_record, List.append_assoc]
    rfl

theorem expressions_visit {s : Stmt} (hstep : s.isStep = true) (p : Progress) :
    (visit imported p s).expressions = p.expressions ++ written imported s := by
  have hnone : p.expressions = p.expressions ++ [] := (List.append_nil _).symm
  cases s with
  | assign x targets value => exact expressions_assign x.lines targets value p
  | annotate x target typeHint value =>
    cases value with
    | none => exact hnone
    | some value => exact expressions_assign x.lines [target] value p
  | augment x target value => exact expressions_augment_all _ value x.lines target.extent _ _
  | evaluate x value => exact hnone
  | imports x kind names => exact hnone
  | define x kind name signature parts => nomatch hstep
  | compound x kind parts => nomatch hstep

theorem expressions_after (unit : SourceUnit) (before : List Stmt) {steps : List Stmt}
    (hsteps : ∀ s ∈ steps, s.isStep = true) :
    (Progress.after unit (before ++ steps)).expressions = (Progress.after unit before).expressions ++
      steps.flatMap (written (Stmt.definedNamesOfAll unit.statements)) := by
  induction steps generalizing before with
  | nil => rw [List.append_nil, List.flatMap_nil, List.append_nil]
  | cons s steps ih =>
    obtain ⟨hstep, hsteps⟩ := List.forall_mem_cons.mp hsteps
    rw [List.append_cons, ih _ hsteps, after_append, expressions_visit hstep, List.append_assoc,
      List.flatMap_cons]

theorem parts_written_stand (targets : List Expr) (value : Expr) :
    StandAmong (partsWritten imported (pairTargets targets value)) [value] := by
  intro e he
  obtain ⟨⟨t, part, v⟩, hpair, he⟩ := List.mem_flatMap.mp he
  obtain ⟨_, _, rfl⟩ := List.mem_map.mp he
  have hpart := List.mem_map_of_mem (f := (·.2)) hpair
  rw [map_pair_targets] at hpart
  obtain ⟨u, _, hpart⟩ := List.mem_flatMap.mp hpart
  exact ⟨value, List.mem_singleton_self value, part_stands hpart⟩

theorem written_stand (s : Stmt) : StandAmong (written imported s) (values s) := by
  cases s with
  | assign x targets value => exact parts_written_stand targets value
  | annotate x target typeHint value =>
    cases value with
    | none => exact nofun
    | some value => exact parts_written_stand [target] value
  | augment x target value =>
    intro e he
    obtain ⟨_, _, rfl⟩ := List.mem_map.mp he
    exact ⟨value, List.mem_singleton_self value, .here⟩
  | evaluate | imports | define | compound => exact nofun

/-! ## What links lead to -/

section
variable {text name : String} {unit : SourceUnit} {before after : List Stmt} {s : Stmt} {x : Extent}

theorem holds_next_iff (hsplit : Stmt.stepsOfAll unit.statements = before ++ s :: after) :
    let imported := Stmt.definedNamesOfAll unit.statements
    (Graph.ofUnit unit).Holds (Progress.after unit before).graph.assignments.size x ↔
      ∃ e, (written imported s ++ after.flatMap (written imported)).head? = some e ∧
        Encloses e x := by
  intro imported
  have hsteps := Stmt.is_step_of_mem_steps_of_all unit.statements
  rw [hsplit, List.forall_mem_append] at hsteps
  have hall : (Graph.ofUnit unit).assignments.toList.map (·.expression) =
      (Progress.after unit before).expressions ++
        (written imported s ++ after.flatMap (written imported)) := by
    rw [graph_of_steps, hsplit, ← List.flatMap_cons]
    exact expressions_after unit before hsteps.2
  have hsize : (Progress.after unit before).graph.assignments.size =
      (Progress.after unit before).expressions.length := by
    rw [Progress.expressions, List.length_map, Array.length_toList]
  rw [List.head?_eq_getElem?, ← Nat.sub_self, ← List.getElem?_append_right (Nat.le_refl _), ← hall,
    ← hsize, List.getElem?_map, Array.getElem?_toList]
  constructor
  · rintro ⟨a, ha, hencloses⟩
    exact ⟨a.expression, congrArg _ ha, hencloses⟩
  · rintro ⟨e, he, hencloses⟩
    obtain ⟨a, ha, rfl⟩ := Option.map_eq_some_iff.mp he
    exact ⟨a, ha, hencloses⟩

theorem values_placed (h : SourceUnit.parse text name = .ok unit) :
    (∀ v ∈ (Stmt.stepsOfAll unit.statements).flatMap values, v.Placed) ∧
      ((Stmt.stepsOfAll unit.statements).flatMap values).Pairwise Expr.Apart := by
  obtain ⟨hplaced, hapart⟩ := SourceUnit.expressions_placed h
  have hperm := expressions_of_all_perm unit.statements
  constructor
  · intro v hv
    exact (hplaced v (hperm.mem_iff.mpr (List.mem_append_right _ hv))).1
  · exact ((hperm.pairwise_iff Expr.Apart.symm).mp hapart).sublist (List.sublist_append_right ..)

/-- What stands in a value lies within nothing that a later step records. -/
theorem not_enclosed_later (h : SourceUnit.parse text name = .ok unit)
    (hsplit : Stmt.stepsOfAll unit.statements = before ++ s :: after)
    (hx : StandsIn (values s) x) {e : Expr} (he : e ∈ after.flatMap (written imported)) :
    ¬ Encloses e x := by
  obtain ⟨hplaced, hapart⟩ := values_placed h
  rw [hsplit, List.flatMap_append, List.flatMap_cons] at hplaced hapart
  obtain ⟨_, hlater⟩ := List.forall_mem_append.mp hplaced
  obtain ⟨hvalues, hlater⟩ := List.forall_mem_append.mp hlater
  obtain ⟨_, _, hbetween⟩ := List.pairwise_append.mp (List.pairwise_append.mp hapart).2.1
  obtain ⟨v, hv, d, hd, rfl⟩ := hx
  obtain ⟨t, ht, he⟩ := List.mem_flatMap.mp he
  obtain ⟨w, hw, hoccurs⟩ := written_stand t e he
  have hw := List.mem_flatMap.mpr ⟨t, ht, hw⟩
  obtain ⟨hd, hstart, hstop⟩ := (hvalues v hv).of_occurs hd
  obtain ⟨_, hstart', hstop'⟩ := (hlater w hw).of_occurs hoccurs
  have hlt := hd.start_lt
  rintro ⟨hle, hge⟩
  rcases hbetween v hv w hw with hbefore | hbehind
  · omega
  · omega

theorem values_unique {v w : Expr} (hv : v ∈ values s) (hw : w ∈ values s) : v = w := by
  cases s with
  | assign x targets value | augment x target value | evaluate x value =>
    exact (List.mem_singleton.mp hv).trans (List.mem_singleton.mp hw).symm
  | annotate x target typeHint value =>
    rw [values, Option.mem_toList] at hv hw
    exact Option.some.inj (hv.symm.trans hw)
  | imports | define | compound => nomatch hv

theorem encloses_of_whole (h : SourceUnit.parse text name = .ok unit)
    (hs : s ∈ Stmt.stepsOfAll unit.statements) (hx : StandsIn (values s) x) {e : Expr}
    (he : e ∈ values s) : Encloses e x := by
  obtain ⟨v, hv, d, hd, rfl⟩ := hx
  obtain rfl := values_unique hv he
  exact (((values_placed h).1 v (List.mem_flatMap.mpr ⟨s, hs, hv⟩)).of_occurs hd).2

/-- What is linked to an assignment stands in the value of a step, and its link leads to the
assignment that comes next after those before the step. -/
theorem exists_linking_step {i : Nat} (hlink : (Graph.ofUnit unit).Links x i) :
    ∃ before s after, Stmt.stepsOfAll unit.statements = before ++ s :: after ∧
      i = (Progress.after unit before).graph.assignments.size ∧ StandsIn (values s) x := by
  have hsteps := Stmt.is_step_of_mem_steps_of_all unit.statements
  rw [Graph.Links, graph_of_steps] at hlink
  rcases hlink with ⟨c, hc, rfl, hi⟩ | ⟨f, hf, rfl, hi⟩
  · obtain ⟨before, s, after, hsplit, hc⟩ := calls_gathered.added hsteps hc
    obtain ⟨link, hlink, hstems⟩ := taken_stems _ s
    obtain ⟨hsame, hstands, _⟩ := hstems.calls c hc
    exact ⟨before, s, after, hsplit, hlink i (hsame ▸ hi), hstands⟩
  · obtain ⟨before, s, after, hsplit, hf⟩ := forward_gathered.added hsteps hf
    obtain ⟨link, hlink, hstems⟩ := taken_stems _ s
    obtain ⟨hsame, hstands⟩ := hstems.forward f hf
    exact ⟨before, s, after, hsplit, hlink i (hsame ▸ hi), hstands⟩

end

/-- Whatever is linked stands in the value of some step, and its link leads to the assignment that
comes next after those of the steps before. It lies within that one's expression just when it lies
within the first part of the value that the step records; so the link holds where all targets take
the value as a whole. Where a value is taken apart it may lead to the expression beside, and where a
step records nothing, to another step or beyond all assignments. -/
theorem links_lead_to_next {text name : String} {unit : SourceUnit}
    (h : SourceUnit.parse text name = .ok unit) {x : Extent} {i : Nat}
    (hlink : (Graph.ofUnit unit).Links x i) :
    let imported := Stmt.definedNamesOfAll unit.statements
    ∃ before s after, Stmt.stepsOfAll unit.statements = before ++ s :: after ∧
      (Progress.after unit (before ++ [s])).expressions =
        (Progress.after unit before).expressions ++ written imported s ∧
      i = (Progress.after unit before).graph.assignments.size ∧ StandsIn (values s) x ∧
      ((Graph.ofUnit unit).Holds i x ↔
        ∃ e, (written imported s).head? = some e ∧ Encloses e x) ∧
      (written imported s ≠ [] → (∀ e ∈ written imported s, e ∈ values s) →
        (Graph.ofUnit unit).Holds i x) := by
  intro imported
  obtain ⟨before, s, after, hsplit, rfl, hx⟩ := exists_linking_step hlink
  have hs : s ∈ Stmt.stepsOfAll unit.statements := by
    rw [hsplit]
    exact List.mem_append_right before (List.mem_cons_self ..)
  have hiff : (Graph.ofUnit unit).Holds (Progress.after unit before).graph.assignments.size x ↔
      ∃ e, (written imported s).head? = some e ∧ Encloses e x := by
    refine (holds_next_iff hsplit).trans ⟨?_, ?_⟩
    · rintro ⟨e, he, hencloses⟩
      -- The first that is recorded is of this step: what later ones record encloses nothing here.
      cases hwritten : written imported s with
      | nil =>
        rw [hwritten, List.nil_append] at he
        exact absurd hencloses (not_enclosed_later h hsplit hx (List.mem_of_head? he))
      | cons first rest =>
        rw [hwritten, List.cons_append] at he
        exact ⟨e, he, hencloses⟩
    · rintro ⟨e, he, hencloses⟩
      exact ⟨e, by rw [List.head?_append, he, Option.some_or], hencloses⟩
  have hstep := Stmt.is_step_of_mem_steps_of_all unit.statements s hs
  refine ⟨before, s, after, hsplit, ?_, rfl, hx, hiff, fun hne hwhole => hiff.mpr ?_⟩
  · rw [after_append, expressions_visit hstep]
  · obtain ⟨e, rest, hwritten⟩ := List.exists_cons_of_ne_nil hne
    have he : e ∈ written imported s := hwritten ▸ List.mem_cons_self ..
    exact ⟨e, by rw [hwritten]; rfl, encloses_of_whole h hs hx (hwhole e he)⟩

/-- A position ahead in what a call returns. -/
def aheadOfCallText : String := "y = f(x)[i + 1]\n"

theorem ahead_of_call_leads_to_next :
    ∃ unit, SourceUnit.parse aheadOfCallText "ahead" = .ok unit ∧
      (Graph.ofUnit unit).Links ⟨4, 15, 1, 1⟩ 0 ∧
      ∃ before s after, Stmt.stepsOfAll unit.statements = before ++ s :: after ∧
        0 = (Progress.after unit before).graph.assignments.size ∧
        StandsIn (values s) ⟨4, 15, 1, 1⟩ ∧
        ((Graph.ofUnit unit).Holds 0 ⟨4, 15, 1, 1⟩ ↔
          ∃ e, (written (Stmt.definedNamesOfAll unit.statements) s).head? = some e ∧
            Encloses e ⟨4, 15, 1, 1⟩) := by
  have hfacts : SourceUnit.parsesTo aheadOfCallText "ahead" (fun unit => decide
      ((⟨4, 15, 1, 1⟩, some 0) ∈
        (Graph.ofUnit unit).forward.map fun f => (f.extent, f.assignment))) = true := by
    decide +kernel
  obtain ⟨unit, hparse, hunit⟩ := SourceUnit.parses_to_iff.mp hfacts
  obtain ⟨f, hf, heq⟩ := List.mem_map.mp (of_decide_eq_true hunit)
  obtain ⟨hextent, hindex⟩ := Prod.mk.inj heq
  have hlink : (Graph.ofUnit unit).Links ⟨4, 15, 1, 1⟩ 0 := .inr ⟨f, hf, hextent, hindex⟩
  obtain ⟨before, s, after, hsplit, _, hnext, hstands, hiff, _⟩ := links_lead_to_next hparse hlink
  exact ⟨unit, hparse, hlink, before, s, after, hsplit, hnext, hstands, hiff⟩

/-- Two variables take what two calls return. -/
def twoCallsText : String := "a, b = f(), g()\n"

/-- The second call is linked to the assignment of the first one. -/
theorem second_call_not_held :
    ∃ unit, SourceUnit.parse twoCallsText "calls" = .ok unit ∧
      (Graph.ofUnit unit).Links ⟨12, 15, 1, 1⟩ 0 ∧
      ¬ (Graph.ofUnit unit).Holds 0 ⟨12, 15, 1, 1⟩ := by
  have hfacts : SourceUnit.parsesTo twoCallsText "calls" (fun unit => decide
      ((⟨12, 15, 1, 1⟩, some 0) ∈
          ((Graph.ofUnit unit).calls.map fun c => (c.extent, c.assignment)) ∧
        (Graph.ofUnit unit).assignments[0]?.map (·.expression.extent) =
          some ⟨7, 10, 1, 1⟩)) = true := by
    decide +kernel
  obtain ⟨unit, hparse, hunit⟩ := SourceUnit.parses_to_iff.mp hfacts
  obtain ⟨hcall, hfirst⟩ := of_decide_eq_true hunit
  obtain ⟨c, hc, heq⟩ := List.mem_map.mp hcall
  obtain ⟨hextent, hindex⟩ := Prod.mk.inj heq
  refine ⟨unit, hparse, .inl ⟨c, hc, hextent, hindex⟩, ?_⟩
  rintro ⟨a, ha, _, hstop⟩
  rw [ha] at hfirst
  have hplace : a.expression.extent = ⟨7, 10, 1, 1⟩ := Option.some.inj hfirst
  rw [hplace] at hstop
  exact absurd hstop (by decide)

end BacktestAudit.Flow
