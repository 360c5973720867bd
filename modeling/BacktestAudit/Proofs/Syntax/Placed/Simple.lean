import BacktestAudit.Proofs.Syntax.Placed.Pattern
import BacktestAudit.Proofs.Syntax.Placed.Target
import BacktestAudit.Syntax.Grammar.Simple

/-!
The places of the expressions in statements on one line.
-/
namespace BacktestAudit.Syntax.Grammar
open BacktestAudit.Source BacktestAudit.Syntax.Parser
set_option autoImplicit false

variable {self : Rules} {s : Setting} {i : Nat}

/-! ## Imports -/

section
variable (hs : s.Sound)
include hs

theorem as_name_moves : Moves s asName :=
  Moves.optional (symbol_moves.bind hs fun _ => name_moves.bind hs fun _ => .done)

theorem imported_module_moves : Moves s importedModule :=
  (name_moves.sepBy1 hs symbol_moves).bind hs fun _ => (as_name_moves hs).bind hs fun _ => .done

theorem imported_members_moves : Moves s importedMembers := by
  have hmember : Moves s importedMember :=
    name_moves.bind hs fun _ => (as_name_moves hs).bind hs fun _ => .done
  exact hmember.sepBy1 hs comma_moves

theorem import_targets_moves : Moves s importTargets := by
  have hmembers := imported_members_moves hs
  intro i
  refine .first ?_ (.first ?_ (.first ?_ (.first (.diagnosing hs) .none)))
  · exact symbol_moves.bind hs (fun _ => hmembers.bind hs fun _ => comma_moves.optional.bind hs
      fun _ => symbol_moves.bind hs fun _ => .done) i
  · exact hmembers.bind hs (fun _ => comma_moves.notAhead.bind hs fun _ => .done) i
  · exact symbol_moves.bind hs (fun _ => .done) i

omit hs in
theorem imports_houses {i j : Nat} (h : Held s i j []) (x : Extent) (kind : StatementKind)
    (names : List String) : Houses s i j [.imports x kind names] := by
  refine Held.stmt ?_ rfl
  rwa [Stmt.expressions_imports]

theorem import_name_holds : HoldsStmt s importName := by
  intro i
  refine .located_any ((symbol_moves i).bind fun j _ h => ?_)
  refine (h.next_bare hs ((imported_module_moves hs).sepBy1 hs comma_moves)).bind fun k names h => ?_
  exact .pure fun x => imports_houses h x _ names

theorem import_from_holds : HoldsStmt s importFrom := by
  have hpath : Moves s (sepBy1 anyName (symbol ".")) := name_moves.sepBy1 hs symbol_moves
  intro i
  refine .orElse (.located_any ?_) (.located_any ?_)
  · refine (symbol_moves i).bind fun j _ h => ?_
    refine (h.next_bare hs ((is_any_of_moves _).many hs)).bind fun k _ h => ?_
    refine (h.next_bare hs hpath).bind fun l _ h => ?_
    refine (h.next_bare hs symbol_moves).bind fun m _ h => ?_
    refine (h.next_bare hs (import_targets_moves hs)).bind fun n names h => ?_
    exact .pure fun x => imports_houses h x _ names
  · refine (symbol_moves i).bind fun j _ h => ?_
    refine (h.next_bare hs ((is_any_of_moves _).many1 hs)).bind fun k _ h => ?_
    refine (h.next_bare hs symbol_moves).bind fun l _ h => ?_
    refine (h.next_bare hs (import_targets_moves hs)).bind fun m names h => ?_
    exact .pure fun x => imports_houses h x _ names

end

section
variable (hself : self.Sound) (hs : s.Sound)
include hself hs

/-! ## Assignments -/

theorem assigned_takes : TakesOne s (assigned self) :=
  (yield_expr_takes hself hs).orElse (star_expressions_takes hself hs)

theorem annotated_holds {target : Parser Expr} (htarget : TakesOne s target) :
    HoldsStmt s (annotated self target) := by
  intro i
  refine .located_any ((htarget i).bind fun j t h => ?_)
  refine (h.next_bare hs .symbol).bind fun k _ h => ?_
  refine (h.next hs (expression_takes hself hs)).bind fun l a h => ?_
  refine (h.skip hs ((assigned_takes hself hs).after hs .symbol).optional).bind fun m v h => ?_
  refine .pure fun x => Held.stmt ?_ rfl
  rw [Stmt.expressions]
  exact h.toHeld

theorem assignment_holds : HoldsStmt s (assignment self) := by
  intro i
  have hpart := (in_brackets_takes hs (single_target_takes hself hs)).orElse
    (part_target_takes hself hs)
  refine .first (annotated_holds hself hs (bound_name_takes hs) i)
    (.first (annotated_holds hself hs hpart i) (.first (.located_any ?_) (.first ?_ .none)))
  · have htarget : TakesOne s (do
        let t ← starTargets self
        let _ ← symbol "="
        return t) :=
      fun i => (star_targets_takes hself hs i).bind fun j t h =>
        (h.next_bare hs .symbol).bind fun k _ h => .pure h
    have hsome : From s i (many1 do
        let t ← starTargets self
        let _ ← symbol "="
        return t) fun _ targets => targets ≠ [] :=
      .many1_ne_nil fun j => (htarget j).mono fun _ _ _ => trivial
    refine ((htarget.many1 hs i).and hsome).bind fun j targets h => ?_
    refine (h.1.next hs (assigned_takes hself hs)).bind fun k v hv => ?_
    refine (From.notAhead (Takes.symbol k)).bind fun l _ hl => ?_
    refine .pure fun x => Held.stmt ?_ ?_
    · rw [Stmt.expressions]
      exact hl ▸ hv.toHeld
    · simpa [Stmt.isProper] using h.2
  · refine From.position.bind fun j first hj => ?_
    rw [hj.1]
    refine .commit (R := fun k t => Took s i k [t] ∧ t.isSingleTarget = true) ?_
      (fun k t h => ?_) (.diagnosing hs)
    · have htarget := (single_target_takes hself hs i).and (single_target_single hself hs)
      refine htarget.bind fun k t h => ?_
      exact (h.1.next_bare hs (is_any_of_bare _)).bind fun l _ hl => .pure ⟨hl, h.2⟩
    · refine (h.1.next hs (assigned_takes hself hs)).bind fun l v hv => ?_
      refine From.extentFrom_any.bind fun m x hm => .pure (Held.stmt ?_ h.2)
      rw [Stmt.expressions]
      exact hm ▸ hv.toHeld

/-! ## Other simple statements -/

omit hself hs in
theorem simple_holds {kind : StatementKind} {m : Parser (List Expr)} (hm : Holds s id m) :
    HoldsStmt s (simple kind m) :=
  fun i => .located_any ((hm i).bind fun _ _ h => .pure fun x => h.evaluated.compound x kind)

theorem return_stmt_holds : HoldsStmt s (returnStmt self) := by
  refine simple_holds fun i => (Takes.symbol i).bind fun j _ h => ?_
  refine (h.skip hs (star_expressions_takes hself hs).optional).bind fun k v h => ?_
  exact .pure h.toHeld

theorem raise_stmt_holds : HoldsStmt s (raiseStmt self) := by
  refine simple_holds fun i => .orElse ?_ ?_
  · refine (Takes.symbol i).bind fun j _ h => ?_
    refine (h.next hs (expression_takes hself hs)).bind fun k a h => ?_
    refine (h.skip hs ((expression_takes hself hs).after hs .symbol).optional).bind fun l b h => ?_
    exact .pure h.toHeld
  · exact (Takes.symbol i).bind fun j _ h => .pure h.toHeld

theorem delete_stmt_holds : HoldsStmt s (deleteStmt self) := by
  have hrules : Rules.Sound { self with deletionTarget := deletionTarget self } :=
    { hself with deletionTarget := fun hs => deletion_target_takes hself hs }
  refine simple_holds fun i => .orElse ?_ (.diagnosing hs)
  refine (Takes.symbol i).bind fun j _ h => ?_
  refine (h.next hs (deletion_targets_takes hrules hs)).bind fun k ts h => ?_
  refine (From.ahead (R := fun _ _ => True) ?_).bind fun l _ hl => .pure (hl ▸ h.toHeld)
  exact .orElse (From.symbol.bind fun _ _ _ => .pure trivial)
    (From.kind.bind fun _ _ _ => .pure trivial)

theorem assert_stmt_holds : HoldsStmt s (assertStmt self) := by
  refine simple_holds fun i => (Takes.symbol i).bind fun j _ h => ?_
  refine (h.next hs (expression_takes hself hs)).bind fun k a h => ?_
  refine (h.skip hs ((expression_takes hself hs).after hs comma_bare).optional).bind fun l b h => ?_
  exact .pure h.toHeld

omit hself in
theorem scope_stmt_holds (keyword : String) (kind : StatementKind) :
    HoldsStmt s (scopeStmt keyword kind) := by
  refine simple_holds fun i => (symbol_moves i).bind fun j _ h => ?_
  exact (h.next_bare hs (name_moves.sepBy1 hs comma_moves)).bind fun k _ h => .pure h

omit hself hs in
theorem word_stmt_holds (keyword : String) (kind : StatementKind) :
    HoldsStmt s (wordStmt keyword kind) :=
  simple_holds fun i => (symbol_moves i).bind fun _ _ h => .pure h

omit hself hs in
theorem expression_stmt_holds {m : Parser Expr} (hm : TakesOne s m) :
    HoldsStmt s (expressionStmt m) := by
  intro i
  refine .located_any ((hm i).bind fun j v h => .pure fun x => Held.stmt ?_ rfl)
  rw [Stmt.expressions]
  exact h.toHeld

theorem simple_stmt_holds : HoldsBlock s (simpleStmt self) := by
  refine fun i => .remember ?_
  refine From.bind (R := fun j stmt => Houses s i j [stmt]) ?_ fun j stmt h => .pure h
  refine .first (assignment_holds hself hs i)
    (.first (expression_stmt_holds (star_expressions_takes hself hs) i)
      (.first (return_stmt_holds hself hs i) (.first (import_name_holds hs i) ?_)))
  refine .first (import_from_holds hs i) (.first (raise_stmt_holds hself hs i)
    (.first (word_stmt_holds _ _ i) (.first (delete_stmt_holds hself hs i) ?_)))
  refine .first (expression_stmt_holds (yield_expr_takes hself hs) i)
    (.first (assert_stmt_holds hself hs i) (.first (word_stmt_holds _ _ i) ?_))
  exact .first (word_stmt_holds _ _ i) (.first (scope_stmt_holds hs _ _ i)
    (.first (scope_stmt_holds hs _ _ i) .none))

theorem simple_stmts_holds : HoldsBlock s (simpleStmts self) := by
  intro i
  refine .orElse ?_ ?_
  · refine (simple_stmt_holds hself hs i).bind fun j ss h => ?_
    refine (h.next_bare hs symbol_moves.notAhead).bind fun k _ h => ?_
    exact (h.next_bare hs .boundary).bind fun l _ h => .pure h
  · refine ((simple_stmt_holds hself hs).sepBy1 hs symbol_moves).bind fun j sss h => ?_
    refine (h.next_bare hs symbol_moves.optional).bind fun k _ h => ?_
    exact (h.next_bare hs .boundary).bind fun l _ h => .pure h

end
end BacktestAudit.Syntax.Grammar
