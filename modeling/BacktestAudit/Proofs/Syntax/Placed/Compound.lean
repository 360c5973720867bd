import BacktestAudit.Proofs.Syntax.Placed.Simple
import BacktestAudit.Syntax.Grammar.Compound

/-!
The places of the expressions in statements with blocks. The parts of a statement are read one after
the other, so their expressions stand apart; a definition has its decorators in front of it.
-/
namespace BacktestAudit.Syntax.Grammar
open BacktestAudit.Source BacktestAudit.Syntax.Parser
set_option autoImplicit false

variable {self : Rules} {s : Setting} {i j : Nat}

/-! ## Blocks -/

theorem forced_moves (text : String) : Moves s (forced text) := by
  refine fun i => .orElse (symbol_moves i) ?_
  exact From.peek.bind fun j t _ => .raiseAt

section
variable (hself : self.Sound) (hs : s.Sound)
include hself hs

theorem block_holds : HoldsBlock s (block self) := by
  have hindented : HoldsBlock s (do
      let _ ← newline
      let _ ← kind .indent
      let ss ← self.statements
      let _ ← kind .dedent
      return ss) := by
    intro i
    have hstart : From s i newline fun j _ => Houses s i j [] :=
      (Moves.boundary i).mono fun _ _ h => ⟨h, rfl⟩
    refine hstart.bind fun j _ h => ?_
    refine (h.next_bare hs .boundary).bind fun k _ h => ?_
    refine (h.next hs (hself.statements hs)).bind fun l ss h => ?_
    exact (h.next_bare hs .boundary).bind fun m _ h => .pure h
  exact fun i => .remember (.first (hindented i) (.first (simple_stmts_holds hself hs i)
    (.first (.diagnosing hs) .none)))

theorem else_block_holds : HoldsBlock s (elseBlock self) := by
  refine fun i => .orElse (.diagnosing hs) ?_
  refine (symbol_moves i).bind fun j _ h => ?_
  have h : Houses s i j [] := ⟨h, rfl⟩
  refine (h.next_bare hs (forced_moves ":")).bind fun k _ h => ?_
  exact h.next hs (block_holds hself hs)

/-- A block behind a colon joins what is in front of it. -/
theorem behind_colon {ss : List Stmt} (h : Houses s i j ss) {β : Type}
    {rest : List Stmt → Parser β} {R : Nat → β → Prop}
    (hrest : ∀ k body, Houses s i k (ss ++ body) → From s k (rest body) R) :
    From s j (do
      let _ ← symbol ":"
      let body ← block self
      rest body) R := by
  refine (h.next_bare hs symbol_moves).bind fun k _ h => ?_
  exact (h.next hs (block_holds hself hs)).bind hrest

omit hself in
theorem last_block {ss : List Stmt} (h : Houses s i j ss) {m : Parser (List Stmt)}
    (hm : HoldsBlock s m) : From s j (optional m) fun k o => Houses s i k (ss ++ o.getD []) :=
  hm.optional.mono fun _ _ ho => h.append ho hs

/-! ## Conditions and loops -/

theorem branches_holds (word : String) : HoldsStmt s (branches self word) := by
  have hheader : TakesOne s (do let _ ← symbol word; namedExpression self) :=
    (named_expression_takes hself hs).after hs .symbol
  have hother : HoldsBlock s
      (self.elifStmt <|> (do return (← optional (elseBlock self)).getD [])) :=
    (hself.elifStmt hs).orElse fun i => (else_block_holds hself hs).optional.bind fun _ _ h => .pure h
  refine fun i => .orElse (.diagnosing hs) (.located_any ?_)
  refine (hheader i).bind fun j test h => ?_
  refine behind_colon hself hs h.toHeld.evaluated fun k body h => ?_
  exact (h.next hs hother).bind fun l other h => .pure fun x => h.compound x _

theorem elif_stmt_holds : HoldsBlock s (elifStmt self) :=
  fun i => (branches_holds hself hs _ i).bind fun _ _ h => .pure h

theorem while_stmt_holds : HoldsStmt s (whileStmt self) := by
  have hheader : TakesOne s (do let _ ← symbol "while"; namedExpression self) :=
    (named_expression_takes hself hs).after hs .symbol
  refine fun i => .orElse (.diagnosing hs) (.located_any ?_)
  refine (hheader i).bind fun j test h => ?_
  refine behind_colon hself hs h.toHeld.evaluated fun k body h => ?_
  exact (last_block hs h (else_block_holds hself hs)).bind fun l other h =>
    .pure fun x => h.compound x _

theorem for_loop_holds {keyword : Parser Token} (hkeyword : TakesBare s keyword)
    (kind : StatementKind) {other : Parser Stmt} (hother : HoldsStmt s other) :
    HoldsStmt s (forLoop self keyword kind other) := by
  intro i
  refine From.position.bind fun j first hj => ?_
  rw [hj.1]
  refine .commit (R := fun k t => Took s i k [t]) ?_ (fun k t h => ?_) (hother i)
  · refine (hkeyword i).bind fun j _ h => ?_
    refine (h.next hs (star_targets_takes hself hs)).bind fun k t h => ?_
    exact (h.next_bare hs .symbol).bind fun l _ h => .pure h
  · refine (h.next hs (star_expressions_takes hself hs)).bind fun l iterable h => ?_
    refine behind_colon hself hs h.toHeld.evaluated fun m body h => ?_
    refine (last_block hs h (else_block_holds hself hs)).bind fun n last h => ?_
    exact From.extentFrom_any.bind fun o x ho => .pure (ho ▸ h.compound x kind)

theorem for_stmt_holds : HoldsStmt s (forStmt self) := by
  have hasync : TakesBare s asyncFor := fun i => (Takes.symbol i).bind fun j _ h =>
    h.next_bare hs .symbol
  exact fun i => .orElse (.diagnosing hs) (for_loop_holds hself hs .symbol _
    (for_loop_holds hself hs hasync _ fun _ => .diagnosing hs) i)

/-! ## Contexts -/

theorem with_item_holds : Holds s id (withItem self) := by
  have hexpression := expression_takes hself hs
  refine fun i => .first ?_ (.first (.diagnosing hs) (.first ?_ .none))
  · refine (hexpression i).bind fun j v h => ?_
    refine (h.next_bare hs .symbol).bind fun k _ h => ?_
    refine (h.next hs (star_target_takes hself hs)).bind fun l t h => ?_
    exact (From.ahead (is_any_of_bare _ l)).bind fun m _ hm => .pure (hm ▸ h.toHeld)
  · exact (hexpression i).bind fun j v h => .pure h.toHeld

omit hself in
theorem with_keyword_moves : Moves s withKeyword :=
  Moves.orElse (symbol_moves.bind hs fun _ => .done)
    (symbol_moves.bind hs fun _ => symbol_moves.bind hs fun _ => .done)

theorem with_stmt_holds : HoldsStmt s (withStmt self) := by
  refine fun i => .first (.diagnosing hs) (.first (.located_any ?_) (.first (.located_any ?_)
    (.first (.diagnosing hs) .none)))
  · refine (with_keyword_moves hs i).bind fun j kind h => ?_
    refine (h.next_bare hs symbol_moves).bind fun k _ h => ?_
    refine (h.next hs ((with_item_holds hself hs).sepBy1 hs comma_moves)).bind fun l items h => ?_
    refine (h.next_bare hs symbol_moves.optional).bind fun m _ h => ?_
    refine (h.next_bare hs symbol_moves).bind fun n _ h => ?_
    rw [List.flatMap_id] at h
    exact behind_colon hself hs h.evaluated fun o body h => .pure fun x => h.compound x kind
  · refine (with_keyword_moves hs i).bind fun j kind h => ?_
    refine (h.next hs ((with_item_holds hself hs).sepBy1 hs comma_moves)).bind fun k items h => ?_
    rw [List.flatMap_id] at h
    exact behind_colon hself hs h.evaluated fun l body h => .pure fun x => h.compound x kind

/-! ## Exceptions -/

omit hself in
theorem handler_name_moves : Moves s handlerName :=
  void_moves hs (symbol_moves.bind hs fun _ => name_moves).optional

/-- Behind its keyword a handler of some type has the type evaluated and then the block. -/
theorem typed_handler_from (h : Houses s i j []) :
    From s j (do
      let v ← expression self
      handlerName
      let _ ← symbol ":"
      return .ofExpr v :: (← block self)) fun k ss => Houses s i k ss := by
  refine (h.next_expr hs (expression_takes hself hs)).bind fun k v h => ?_
  refine (h.next_bare hs (handler_name_moves hs)).bind fun l _ h => ?_
  exact behind_colon hself hs h fun m body h => .pure h

theorem handler_holds : HoldsBlock s (handler self) := by
  refine fun i => .first (.diagnosing hs) (.first ?_ (.first ?_ (.first (.diagnosing hs) .none)))
  · exact (symbol_moves i).bind fun j _ h => typed_handler_from hself hs ⟨h, rfl⟩
  · refine (symbol_moves i).bind fun j _ h => ?_
    have h : Houses s i j [] := ⟨h, rfl⟩
    exact (h.next_bare hs symbol_moves).bind fun k _ h => h.next hs (block_holds hself hs)

theorem group_handler_holds : HoldsBlock s (groupHandler self) := by
  refine fun i => .first (.diagnosing hs) (.first ?_ (.first (.diagnosing hs) .none))
  refine (symbol_moves i).bind fun j _ h => ?_
  exact (h.next_bare hs symbol_moves).bind fun k _ h => typed_handler_from hself hs ⟨h, rfl⟩

theorem finally_block_holds : HoldsBlock s (finallyBlock self) := by
  refine fun i => .orElse (.diagnosing hs) ?_
  refine (symbol_moves i).bind fun j _ h => ?_
  have h : Houses s i j [] := ⟨h, rfl⟩
  refine (h.next_bare hs (forced_moves ":")).bind fun k _ h => ?_
  exact h.next hs (block_holds hself hs)

theorem try_with_holds (kind : StatementKind) {handlers : Parser (List Stmt)}
    (hhandlers : HoldsBlock s handlers) : HoldsStmt s (tryWith self kind handlers) := by
  intro i
  refine .located_any ((symbol_moves i).bind fun j _ h => ?_)
  have h : Houses s i j [] := ⟨h, rfl⟩
  refine (h.next_bare hs (forced_moves ":")).bind fun k _ h => ?_
  refine (h.next hs (block_holds hself hs)).bind fun l body h => ?_
  exact (h.next hs hhandlers).bind fun m rest h => .pure fun x => h.compound x kind

theorem handled_holds {one : Parser (List Stmt)} (hone : HoldsBlock s one) :
    HoldsBlock s (handled self one) := by
  refine fun i => (hone.many1 hs).bind fun j handlers h => ?_
  refine (last_block hs h (else_block_holds hself hs)).bind fun k other h => ?_
  exact (last_block hs h (finally_block_holds hself hs)).bind fun l last h => .pure h

theorem try_stmt_holds : HoldsStmt s (tryStmt self) :=
  fun i => .first (.diagnosing hs)
    (.first (try_with_holds hself hs _ (finally_block_holds hself hs) i)
      (.first (try_with_holds hself hs _ (handled_holds hself hs (handler_holds hself hs)) i)
        (.first (try_with_holds hself hs _ (handled_holds hself hs (group_handler_holds hself hs)) i)
          .none)))

/-! ## Matches -/

theorem subject_takes : TakesOne s (subject self) := by
  refine fun i => .orElse (.located hs ?_) (named_expression_takes hself hs i)
  refine (star_named_expression_takes hself hs i).bind fun j a h => ?_
  refine (h.next_bare hs comma_bare).bind fun k _ h => ?_
  refine (h.skip hs (star_named_expressions_takes hself hs).optional_list).bind fun l rest h => ?_
  exact .pure (h.wrap hs fun x => ⟨rfl, .refl _, trivial⟩)

theorem case_block_holds : HoldsBlock s (caseBlock self) := by
  have hpattern : Rules.Sound { self with pattern := pattern self } :=
    { hself with pattern := fun hs => pattern_moves hs hself }
  have hguard : TakesOne s (guard self) := (named_expression_takes hself hs).after hs .symbol
  refine fun i => .orElse (.diagnosing hs) ?_
  have hheader : From s i (do
      let _ ← softKeyword "case"
      patterns { self with pattern := pattern self }
      optional (guard self)) fun j g => Held s i j g.toList := by
    refine (Takes.softKeyword i).bind fun j _ h => ?_
    refine (h.toHeld.next_bare hs (patterns_moves hs hpattern)).bind fun k _ h => ?_
    exact hguard.optional.mono fun l g hg => h.append hg.toHeld hs
  exact hheader.bind fun j g h => behind_colon hself hs h.evaluated fun k body h => .pure h

theorem match_stmt_holds : HoldsStmt s (matchStmt self) := by
  have hheader : TakesOne s (do let _ ← softKeyword "match"; subject self) :=
    (subject_takes hself hs).after hs .softKeyword
  refine fun i => .orElse (.located_any ?_) (.diagnosing hs)
  refine (hheader i).bind fun j v h => ?_
  have h : Houses s i j [.ofExpr v] := h.toHeld.evaluated
  refine (h.next_bare hs symbol_moves).bind fun k _ h => ?_
  refine (h.next_bare hs .boundary).bind fun l _ h => ?_
  refine (h.next_bare hs .boundary).bind fun m _ h => ?_
  refine ((case_block_holds hself hs).many1 hs).bind fun n cases hcases => ?_
  refine ((h.append hcases hs).next_bare hs .boundary).bind fun o _ h => ?_
  exact .pure fun x => h.compound x _

/-! ## Functions and classes -/

omit hself in
theorem function_keyword_moves : Moves s functionKeyword :=
  Moves.orElse (symbol_moves.bind hs fun _ => .done)
    (symbol_moves.bind hs fun _ => symbol_moves.bind hs fun _ => .done)

theorem decorators_holds : Holds s id (decorators self) := by
  have hone : Holds s (fun v => [v]) (do
      let _ ← symbol "@"
      let v ← namedExpression self
      let _ ← newline
      return v) := by
    refine fun i => (symbol_moves i).bind fun j _ h => ?_
    refine (h.next hs (named_expression_takes hself hs).holds).bind fun k v h => ?_
    exact (h.next_bare hs .boundary).bind fun l _ h => .pure h
  exact fun i => (hone.many1 hs i).mono fun j ds h => List.flatMap_singleton' ds ▸ h

omit hself hs in
/-- A definition has the expressions of its signature and of its parts, in whatever order they
stand. -/
theorem define_houses {signature es : List Expr} {parts body : List Stmt}
    (h : Houses s i j (es.map Stmt.ofExpr ++ body))
    (hperm : (signature ++ Stmt.expressionsOfAll parts).Perm (es ++ Stmt.expressionsOfAll body))
    (hproper : Stmt.areProper parts = Stmt.areProper body) (x : Extent)
    (kind : StatementKind) (name : String) : Houses s i j [.define x kind name signature parts] := by
  have hheld := h.toHeld
  have hbody := h.proper
  rw [Stmt.expressions_of_all_append, Stmt.expressions_of_all_map] at hheld
  rw [Stmt.are_proper_append, Stmt.are_proper_map, Bool.true_and] at hbody
  refine Held.stmt ?_ ?_
  · rw [Stmt.expressions]
    exact hheld.subperm hperm.subperm
  · rw [Stmt.is_proper_define, hproper, hbody]

variable {ds : List Expr}

theorem function_def_from (h : Held s i j ds) :
    From s j (functionDef self ds) fun k t => Houses s i k [t] := by
  have hresult : TakesOne s (do let _ ← symbol "->"; expression self) :=
    (expression_takes hself hs).after hs .symbol
  refine .orElse (.diagnosing hs) (.located_any ?_)
  refine (h.next_bare hs (function_keyword_moves hs)).bind fun k kind h => ?_
  refine (h.next_bare hs name_moves).bind fun l name h => ?_
  refine (h.next_bare hs (forced_moves "(")).bind fun m _ h => ?_
  have hparameters : From s m (optional (functionParameters self)) fun n o =>
      Held s i n (ds ++ (o.getD .none).expressions) :=
    .optional ((function_parameters_takes hself hs m).mono fun n ps hps => h.append hps.toHeld hs)
      ((List.append_nil ds).symm ▸ h)
  refine hparameters.bind fun n ps h => ?_
  refine (h.next_bare hs symbol_moves).bind fun o _ h => ?_
  have hmore : From s o (optional do let _ ← symbol "->"; expression self) fun p result =>
      Held s i p (ds ++ (ps.getD .none).expressions ++ result.toList) :=
    hresult.optional.mono fun p result hr => h.append hr.toHeld hs
  refine hmore.bind fun p result h => ?_
  refine (h.next_bare hs (forced_moves ":")).bind fun q _ h => ?_
  refine (h.evaluated.next hs (block_holds hself hs)).bind fun r body h => ?_
  refine .pure fun x => define_houses h ?_ ?_ x kind name.text
  · simp only [Stmt.expressions_of_all_append, Stmt.expressions_of_all_map]
    change (Parameters.expressions _ ++ _).Perm _
    rw [List.append_assoc (Stmt.expressionsOfAll body), List.append_assoc ds, List.append_assoc ds]
    refine .trans (.append_left _ (List.perm_append_comm_assoc ..)) ?_
    refine .trans (List.perm_append_comm_assoc ..) (.append_left _ ?_)
    rw [List.append_assoc]
    exact .append_left _ List.perm_append_comm
  · simp

theorem class_header_takes : Takes s (·.2) (classHeader self) := by
  have harguments : Takes s id (do
      let _ ← symbol "("
      let as ← optional (arguments self)
      let _ ← symbol ")"
      return as.getD []) := by
    refine fun i => (Takes.symbol i).bind fun j _ h => ?_
    refine (h.skip hs (arguments_takes hself hs).optional_list).bind fun k as h => ?_
    exact (h.next_bare hs .symbol).bind fun l _ h => .pure h
  refine fun i => (Takes.symbol i).bind fun j _ h => ?_
  refine (h.next_bare hs .name).bind fun k name h => ?_
  exact (h.skip hs harguments.optional_list).bind fun l as h => .pure h

theorem class_def_from (h : Held s i j ds) :
    From s j (classDef self ds) fun k t => Houses s i k [t] := by
  refine .orElse (.diagnosing hs) (.located_any ?_)
  refine (h.next hs (class_header_takes hself hs).holds).bind fun k header h => ?_
  obtain ⟨name, as⟩ := header
  refine (h.next_bare hs symbol_moves).bind fun l _ h => ?_
  refine (h.evaluated.next hs (block_holds hself hs)).bind fun m body h => ?_
  refine .pure fun x => define_houses h ?_ ?_ x .classDef name
  · have harguments := List.perm_append_comm.trans (positional_first_perm as)
    simp only [Stmt.expressions_of_all_append, Stmt.expressions_of_all_map, ← List.append_assoc]
    refine .trans List.perm_append_comm ?_
    rw [← List.append_assoc ds]
    exact .append_right _ (.append_left ds harguments)
  · simp

theorem decorated_holds {definition : List Expr → Parser Stmt}
    (hdefinition : ∀ {i j ds}, Held s i j ds → From s j (definition ds) fun k t => Houses s i k [t]) :
    HoldsStmt s (decorated self definition) :=
  fun i => .orElse ((decorators_holds hself hs i).bind fun _ _ h => hdefinition h) (hdefinition .nil)

/-! ## Statements -/

theorem compound_stmt_holds : HoldsStmt s (compoundStmt self) := by
  intro i
  refine .first (.after_ahead (is_any_of_bare _ i)
      (decorated_holds hself hs (function_def_from hself hs) i))
    (.first (.after_ahead (Takes.symbol i) (branches_holds hself hs _ i)) ?_)
  refine .first (.after_ahead (is_any_of_bare _ i)
      (decorated_holds hself hs (class_def_from hself hs) i))
    (.first (.after_ahead (is_any_of_bare _ i) (with_stmt_holds hself hs i)) ?_)
  refine .first (.after_ahead (is_any_of_bare _ i) (for_stmt_holds hself hs i))
    (.first (.after_ahead (Takes.symbol i) (try_stmt_holds hself hs i)) ?_)
  exact .first (.after_ahead (Takes.symbol i) (while_stmt_holds hself hs i))
    (.first (match_stmt_holds hself hs i) .none)

theorem statements_holds : HoldsBlock s (statements self) := by
  have hone : HoldsBlock s ((do return [← compoundStmt self]) <|> simpleStmts self) :=
    fun i => .orElse ((compound_stmt_holds hself hs i).bind fun _ _ h => .pure h)
      (simple_stmts_holds hself hs i)
  exact fun i => (hone.many1 hs).bind fun j sss h => .pure h

theorem program_holds : HoldsBlock s (program self) := by
  refine fun i => (statements_holds hself hs).optional.bind fun j ss h => ?_
  exact (h.next_bare hs .boundary).bind fun k _ h => .pure h

end
end BacktestAudit.Syntax.Grammar
