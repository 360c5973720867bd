import BacktestAudit.Proofs.Syntax.Reads
import BacktestAudit.Syntax.Grammar.Display

/-!
The places of displays, comprehensions and arguments. Each rule takes what it gives, when the rules
of the level below do.
-/
namespace BacktestAudit.Syntax
open BacktestAudit.Source BacktestAudit.Syntax.Parser
set_option autoImplicit false

/-- Rules that take the expressions that they give. -/
structure Rules.Sound (rules : Rules) : Prop where
  expression : ∀ {s : Setting}, s.Sound → TakesOne s rules.expression
  namedExpression : ∀ {s : Setting}, s.Sound → TakesOne s rules.namedExpression
  disjunction : ∀ {s : Setting}, s.Sound → TakesOne s rules.disjunction
  inversion : ∀ {s : Setting}, s.Sound → TakesOne s rules.inversion
  bitwiseOr : ∀ {s : Setting}, s.Sound → TakesOne s rules.bitwiseOr
  factor : ∀ {s : Setting}, s.Sound → TakesOne s rules.factor
  starTarget : ∀ {s : Setting}, s.Sound → TakesOne s rules.starTarget
  starTargets : ∀ {s : Setting}, s.Sound → TakesOne s rules.starTargets
  starAtomTarget : ∀ {s : Setting}, s.Sound → TakesOne s rules.starAtomTarget
  singleTarget : ∀ {s : Setting}, s.Sound → TakesOne s rules.singleTarget
  /-- What may be augmented is a single target. -/
  isSingle : ∀ {s : Setting} {i : Nat}, s.Sound →
    From s i rules.singleTarget fun _ t => t.isSingleTarget = true
  deletionTarget : ∀ {s : Setting}, s.Sound → TakesOne s rules.deletionTarget
  pattern : ∀ {s : Setting}, s.Sound → Moves s rules.pattern
  elifStmt : ∀ {s : Setting}, s.Sound → HoldsBlock s rules.elifStmt
  statements : ∀ {s : Setting}, s.Sound → HoldsBlock s rules.statements

namespace Grammar

variable {self : Rules} {s : Setting} {α : Type} {i : Nat} {item : Parser Expr}

/-! ## Lists -/

theorem comma_bare : TakesBare s comma := .symbol

theorem is_any_of_bare (texts : List String) : TakesBare s (isAnyOf texts) :=
  fun _ => .first_of_map fun _ _ => .symbol

/-- A name is one word, whatever is done with it where it stands. -/
theorem name_takes (hs : s.Sound) (role : NameRole) :
    TakesOne s (located do
      let t ← anyName
      return fun e => .name e t.text role) := by
  intro i
  refine .located hs ?_
  refine From.anyName.bind fun j t ht => ?_
  obtain ⟨rfl, ht, hkind⟩ := ht
  have hne : t.text ≠ "" := by
    intro hempty
    have hsize := (hs.name_le ht hkind).1
    rw [hempty] at hsize
    exact absurd hsize (Nat.lt_irrefl 0)
  have hword : Took s i (i + 1) [] := .token ht
  exact .pure (hword.wrap hs fun x => ⟨rfl, List.nil_subperm, hne, t, .own ht, hkind, rfl⟩)

theorem bound_name_takes (hs : s.Sound) : TakesOne s boundName := name_takes hs .bind

theorem read_name_takes (hs : s.Sound) : TakesOne s readName := name_takes hs .read

theorem tuple_or_item_takes (hs : s.Sound) (hitem : TakesOne s item) :
    TakesOne s (tupleOrItem item) := by
  intro i
  refine .orElse (.located hs ?_) (.orElse (.located hs ?_) (hitem i))
  · refine (hitem i).bind fun j a h => ?_
    refine (h.next hs ((hitem.after hs comma_bare).many1 hs)).bind fun k rest h => ?_
    refine (h.skip_bare hs comma_bare.optional).bind fun l _ h => ?_
    exact .pure (h.wrap hs fun x => ⟨rfl, .refl _, trivial⟩)
  · refine (hitem i).bind fun j a h => ?_
    refine (h.next_bare hs comma_bare).bind fun k _ h => ?_
    exact .pure (h.wrap hs fun x => ⟨rfl, .refl _, trivial⟩)

theorem comma_list_takes {parts : α → List Expr} {m : Parser α} (hs : s.Sound)
    (hm : Takes s parts m) : Takes s (fun as => as.flatMap parts) (commaList m) := by
  intro i
  refine (hm.sepBy1 hs comma_bare i).bind fun j as h => ?_
  refine (h.skip_bare hs comma_bare.optional).bind fun k _ h => ?_
  exact .pure h

theorem comma_list_takes_one (hs : s.Sound) (hitem : TakesOne s item) :
    Takes s id (commaList item) :=
  fun i => (comma_list_takes hs hitem i).mono fun _ es h => List.flatMap_singleton' es ▸ h

section
variable (hself : self.Sound) (hs : s.Sound)
include hself hs

/-! ## Lists of expressions -/

theorem star_bitwise_takes : TakesOne s (starBitwise self) := by
  intro i
  refine .located hs ?_
  refine (Takes.symbol i).bind fun j _ h => ?_
  refine (h.next hs (hself.bitwiseOr hs)).bind fun k v h => ?_
  exact .pure (h.wrap hs fun x => ⟨rfl, .refl _, trivial⟩)

theorem star_expression_takes : TakesOne s (starExpression self) :=
  .remember ((star_bitwise_takes hself hs).orElse (hself.expression hs))

theorem star_expressions_takes : TakesOne s (starExpressions self) :=
  tuple_or_item_takes hs (star_expression_takes hself hs)

theorem star_named_expression_takes : TakesOne s (starNamedExpression self) :=
  (star_bitwise_takes hself hs).orElse (hself.namedExpression hs)

theorem star_named_expressions_takes : Takes s id (starNamedExpressions self) :=
  comma_list_takes_one hs (star_named_expression_takes hself hs)

theorem starred_expression_takes : TakesOne s (starredExpression self) := by
  intro i
  refine .located hs ?_
  refine (Takes.symbol i).bind fun j _ h => ?_
  refine (h.next hs (hself.expression hs)).bind fun k v h => ?_
  exact .pure (h.wrap hs fun x => ⟨rfl, .refl _, trivial⟩)

theorem assignment_expression_takes : TakesOne s (assignmentExpression self) := by
  intro i
  refine .located hs ?_
  refine (bound_name_takes hs i).bind fun j target h => ?_
  refine (h.next_bare hs .symbol).bind fun k _ h => ?_
  refine (h.next hs (hself.expression hs)).bind fun l v h => ?_
  exact .pure (h.wrap hs fun x => ⟨rfl, .refl _, trivial⟩)

theorem yield_expr_takes : TakesOne s (yieldExpr self) := by
  intro i
  refine .orElse (.located hs ?_) (.located hs ?_)
  · refine (Takes.symbol i).bind fun j _ h => ?_
    refine (h.next_bare hs .symbol).bind fun k _ h => ?_
    refine (h.next hs (hself.expression hs)).bind fun l v h => ?_
    exact .pure (h.wrap hs fun x => ⟨rfl, .refl _, trivial⟩)
  · refine (Takes.symbol i).bind fun j _ h => ?_
    refine (h.skip hs (star_expressions_takes hself hs).optional).bind fun k v h => ?_
    exact .pure (h.wrap hs fun x => ⟨rfl, .refl _, trivial⟩)

theorem unbound_expression_takes : TakesOne s (unboundExpression self) := by
  intro i
  refine (hself.expression hs i).bind fun j v h => ?_
  refine (From.notAhead .symbol).bind fun k _ hk => ?_
  exact .pure (hk ▸ h)

/-! ## Comprehensions -/

theorem for_if_clause_takes : Takes s id (forIfClause self) := by
  have hclause : ∀ {keyword : Parser Token} {other : Parser (List Expr)}, TakesBare s keyword →
      Takes s id other →
      Takes s id (commit
        (do
          let _ ← keyword
          let target ← self.starTargets
          let _ ← symbol "in"
          return target)
        (fun target => do
          let iterable ← self.disjunction
          let conditions ← many (do let _ ← symbol "if"; self.disjunction)
          return target :: iterable :: conditions)
        other) := by
    intro keyword other hkeyword hother i
    refine .commit (R := fun j target => Took s i j [target]) ?_ (fun j target h => ?_) (hother i)
    · refine (hkeyword i).bind fun j _ h => ?_
      refine (h.next hs (hself.starTargets hs)).bind fun k target h => ?_
      refine (h.next_bare hs .symbol).bind fun l _ h => ?_
      exact .pure h
    · refine (h.next hs (hself.disjunction hs)).bind fun k iterable h => ?_
      have hif : TakesBare s (symbol "if") := .symbol
      refine (h.skip hs (((hself.disjunction hs).after hs hif).many hs)).bind fun l cs h => ?_
      exact .pure h
  exact hclause (Takes.symbol.after hs .symbol) (hclause .symbol fun i => .diagnosing hs)

theorem for_if_clauses_takes : Takes s id (forIfClauses self) := by
  intro i
  refine ((for_if_clause_takes hself hs).many1 hs i).bind fun j clauses h => ?_
  exact .pure (List.flatMap_id ▸ h)

/-- A comprehension is no argument by name. -/
theorem comprehension_takes {opening closing : String} {form : Form} {element : Parser (List Expr)}
    (helement : Takes s id element) :
    From s i (comprehension opening closing form element self) fun j e =>
      Took s i j [e] ∧ e.isKeyword = false := by
  refine .located hs ?_
  refine (Takes.symbol i).bind fun j _ h => ?_
  refine (h.next hs helement).bind fun k parts h => ?_
  refine (h.next hs (for_if_clauses_takes hself hs)).bind fun l clauses h => ?_
  refine (h.next_bare hs .symbol).bind fun m _ h => ?_
  have hwraps : ∀ x, (Expr.composite x form (parts ++ clauses)).extent = x ∧
      (Expr.composite x form (parts ++ clauses)).children.Subperm (parts ++ clauses) ∧
      (Expr.composite x form (parts ++ clauses)).FittedIn s :=
    fun x => ⟨rfl, .refl _, trivial⟩
  have hwrapped := h.wrap hs hwraps
  exact .pure ⟨hwrapped.1, fun x hx => ⟨hwrapped.2 x hx, rfl⟩⟩

theorem generator_takes : From s i (generator self) fun j e =>
    Took s i j [e] ∧ e.isKeyword = false := by
  refine .orElse (comprehension_takes hself hs fun j => ?_) (.diagnosing hs)
  refine ((assignment_expression_takes hself hs).orElse (unbound_expression_takes hself hs) j).bind
    fun k e h => ?_
  exact .pure h

theorem named_element_takes : Takes s id (do return [← self.namedExpression]) :=
  fun i => (hself.namedExpression hs i).bind fun _ _ h => .pure h

theorem list_comprehension_takes : TakesOne s (listComprehension self) := by
  intro i
  refine .orElse ?_ (.diagnosing hs)
  exact (comprehension_takes hself hs (named_element_takes hself hs)).mono fun _ _ h => h.1

theorem set_comprehension_takes : TakesOne s (setComprehension self) := by
  intro i
  refine .orElse ?_ (.diagnosing hs)
  exact (comprehension_takes hself hs (named_element_takes hself hs)).mono fun _ _ h => h.1

theorem key_and_value_takes : Takes s (fun kv => [kv.1, kv.2]) (keyAndValue self) := by
  intro i
  refine (hself.expression hs i).bind fun j k h => ?_
  refine (h.next_bare hs .symbol).bind fun l _ h => ?_
  refine (h.next hs (hself.expression hs)).bind fun m v h => ?_
  exact .pure h

theorem dict_comprehension_takes : TakesOne s (dictComprehension self) := by
  intro i
  refine .orElse ?_ (.diagnosing hs)
  refine (comprehension_takes hself hs fun j => ?_).mono fun _ _ h => h.1
  exact (key_and_value_takes hself hs j).bind fun _ _ h => .pure h

/-! ## Displays -/

theorem list_display_takes : TakesOne s (listDisplay self) := by
  intro i
  refine .located hs ?_
  refine (Takes.symbol i).bind fun j _ h => ?_
  refine (h.skip hs (star_named_expressions_takes hself hs).optional_list).bind fun k es h => ?_
  refine (h.next_bare hs .symbol).bind fun l _ h => ?_
  exact .pure (h.wrap hs fun x => ⟨rfl, .refl _, trivial⟩)

theorem tuple_display_takes : TakesOne s (tupleDisplay self) := by
  intro i
  refine .located hs ?_
  refine (Takes.symbol i).bind fun j _ h => ?_
  have hitems : Takes s id do
      let a ← starNamedExpression self
      let _ ← comma
      let rest ← optional (starNamedExpressions self)
      return a :: rest.getD [] := by
    intro i
    refine (star_named_expression_takes hself hs i).bind fun j a h => ?_
    refine (h.next_bare hs comma_bare).bind fun k _ h => ?_
    refine (h.skip hs (star_named_expressions_takes hself hs).optional_list).bind fun l rest h => ?_
    exact .pure h
  refine (h.skip hs hitems.optional_list).bind fun k es h => ?_
  refine (h.next_bare hs .symbol).bind fun l _ h => ?_
  exact .pure (h.wrap hs fun x => ⟨rfl, .refl _, trivial⟩)

theorem set_display_takes : TakesOne s (setDisplay self) := by
  intro i
  refine .located hs ?_
  refine (Takes.symbol i).bind fun j _ h => ?_
  refine (h.next hs (star_named_expressions_takes hself hs)).bind fun k es h => ?_
  refine (h.next_bare hs .symbol).bind fun l _ h => ?_
  exact .pure (h.wrap hs fun x => ⟨rfl, .refl _, trivial⟩)

theorem group_takes : TakesOne s (group self) := by
  intro i
  refine .orElse ?_ (.diagnosing hs)
  refine (Takes.symbol i).bind fun j _ h => ?_
  refine (h.next hs ((yield_expr_takes hself hs).orElse (hself.namedExpression hs))).bind
    fun k v h => ?_
  refine (h.next_bare hs .symbol).bind fun l _ h => ?_
  exact .pure h

theorem dict_entry_takes : Takes s (fun kv => kv.1.toList ++ [kv.2]) (dictEntry self) := by
  intro i
  refine .orElse ?_ ?_
  · refine (Takes.symbol i).bind fun j _ h => ?_
    refine (h.next hs (hself.bitwiseOr hs)).bind fun k v h => ?_
    exact .pure h
  · exact (key_and_value_takes hself hs i).bind fun _ _ h => .pure h

theorem starred_dict_value_from {R : Nat → α → Prop} :
    From s i (starredDictValue self : Parser α) R := by
  refine (hself.expression hs i).bind fun j _ _ => ?_
  refine (Takes.symbol j).bind fun k _ _ => ?_
  refine (Takes.symbol k).bind fun l _ _ => ?_
  exact (hself.bitwiseOr hs l).bind fun _ _ _ => .raiseAt

theorem missing_dict_value_from {R : Nat → α → Prop} :
    From s i (missingDictValue self : Parser α) R := by
  refine (hself.expression hs i).bind fun j _ _ => ?_
  refine (Takes.symbol j).bind fun k _ _ => ?_
  exact (From.ahead (is_any_of_bare _ k)).bind fun _ _ _ => .raiseAt

theorem invalid_dict_entries_from {R : Nat → α → Prop} :
    From s i (invalidDictEntries self : Parser α) R := by
  refine .first ?_ (.first (starred_dict_value_from hself hs)
    (.first (missing_dict_value_from hself hs) .none))
  refine ((dict_entry_takes hself hs).sepBy1 hs comma_bare i).bind fun j _ _ => ?_
  refine (comma_bare j).bind fun k _ _ => ?_
  refine .first ?_ (.first (starred_dict_value_from hself hs)
    (.first (missing_dict_value_from hself hs) .none))
  refine (hself.expression hs k).bind fun l _ _ => ?_
  exact (From.notAhead (Takes.symbol l)).bind fun _ _ _ => .raiseAt

omit hself hs in
theorem keys_and_values_perm (kvs : List (Option Expr × Expr)) :
    (kvs.filterMap (·.1) ++ kvs.map (·.2)).Perm (kvs.flatMap fun kv => kv.1.toList ++ [kv.2]) := by
  have hkeys : kvs.filterMap (·.1) = kvs.flatMap (·.1.toList) := by
    rw [← List.filterMap_eq_flatMap_toList]
  have hvalues : kvs.map (·.2) = kvs.flatMap fun kv => [kv.2] := List.map_eq_flatMap
  rw [hkeys, hvalues]
  exact List.flatMap_append_perm ..

theorem dict_display_takes : TakesOne s (dictDisplay self) := by
  intro i
  refine .orElse (.located hs ?_) ?_
  · refine (Takes.symbol i).bind fun j _ h => ?_
    refine (h.skip hs (comma_list_takes hs (dict_entry_takes hself hs)).optional).bind
      fun k entries h => ?_
    refine (h.next_bare hs .symbol).bind fun l _ h => ?_
    have hsub : ((entries.getD []).filterMap (·.1) ++ (entries.getD []).map (·.2)).Subperm
        (entries.elim [] fun kvs => kvs.flatMap fun kv => kv.1.toList ++ [kv.2]) := by
      cases entries with
      | none => exact .refl _
      | some kvs => exact (keys_and_values_perm kvs).subperm
    refine .pure (h.wrap hs fun x => ?_)
    split
    · exact ⟨rfl, hsub, trivial⟩
    · exact ⟨rfl, hsub, trivial⟩
  · exact (Takes.symbol i).bind fun _ _ _ => invalid_dict_entries_from hself hs

/-! ## Arguments -/

theorem named_argument_takes : TakesOne s (namedArgument self) := by
  intro i
  refine .located hs ?_
  refine (Takes.name i).bind fun j t h => ?_
  refine (h.next_bare hs .symbol).bind fun k _ h => ?_
  refine (h.next hs (hself.expression hs)).bind fun l v h => ?_
  exact .pure (h.wrap hs fun x => ⟨rfl, .refl _, trivial⟩)

theorem unpacked_argument_takes : TakesOne s (unpackedArgument self) := by
  intro i
  refine .located hs ?_
  refine (Takes.symbol i).bind fun j _ h => ?_
  refine (h.next hs (hself.expression hs)).bind fun k v h => ?_
  exact .pure (h.wrap hs fun x => ⟨rfl, .refl _, trivial⟩)

theorem keyword_or_starred_takes : TakesOne s (keywordOrStarred self) :=
  fun i => .first (.diagnosing hs) (.first (named_argument_takes hself hs i)
    (.first (starred_expression_takes hself hs i) .none))

theorem keyword_or_unpacked_takes : TakesOne s (keywordOrUnpacked self) :=
  fun i => .first (.diagnosing hs) (.first (named_argument_takes hself hs i)
    (.first (unpacked_argument_takes hself hs i) .none))

theorem keywords_takes : Takes s id (keywords self) := by
  have hstarred := (keyword_or_starred_takes hself hs).sepBy1 hs comma_bare
  have hunpacked := (keyword_or_unpacked_takes hself hs).sepBy1 hs comma_bare
  intro i
  refine .first ?_ (.first (hstarred i) (.first (hunpacked i) .none))
  refine (hstarred i).bind fun j starred h => ?_
  refine (h.next_bare hs comma_bare).bind fun k _ h => ?_
  refine (h.next hs hunpacked).bind fun l unpacked h => ?_
  exact .pure h

theorem in_place_takes : TakesOne s (inPlace self) := by
  intro i
  refine .orElse (starred_expression_takes hself hs i) ?_
  refine ((assignment_expression_takes hself hs).orElse (unbound_expression_takes hself hs) i).bind
    fun j v h => ?_
  refine (From.notAhead .symbol).bind fun k _ hk => ?_
  exact .pure (hk ▸ h)

omit hself hs in
theorem positional_first_perm (es : List Expr) :
    (es.filter (!·.isKeyword) ++ es.filter (·.isKeyword)).Perm es := by
  have hperm := List.filter_append_perm (fun e : Expr => !e.isKeyword) es
  simpa using hperm

theorem some_arguments_takes : Takes s id (someArguments self) := by
  intro i
  refine .orElse ?_ ?_
  · refine ((in_place_takes hself hs).sepBy1 hs comma_bare i).bind fun j first h => ?_
    have hrest := (keywords_takes hself hs).after hs comma_bare
    refine (h.skip hs hrest.optional_list).bind fun k rest h => ?_
    exact .pure (h.subperm (positional_first_perm _).subperm)
  · refine (keywords_takes hself hs i).bind fun j all h => ?_
    exact .pure (h.subperm (positional_first_perm all).subperm)

theorem arguments_takes : Takes s id (arguments self) := by
  intro i
  refine .remember (.orElse ?_ (.diagnosing hs))
  refine (some_arguments_takes hself hs i).bind fun j all h => ?_
  refine (h.skip_bare hs comma_bare.optional).bind fun k _ h => ?_
  refine (From.ahead .symbol).bind fun l _ hl => ?_
  exact .pure (hl ▸ h)

end
end Grammar
end BacktestAudit.Syntax
