import BacktestAudit.Proofs.Syntax.Placed.Display
import BacktestAudit.Syntax.Grammar.Parameter

/-!
The places of the expressions in parameter lists.
-/
namespace BacktestAudit.Syntax.Grammar
open BacktestAudit.Source BacktestAudit.Syntax.Parser
set_option autoImplicit false

def Parameter.expressions (p : Parameter) : List Expr := p.typeHint.toList ++ p.default.toList

def Parameters.expressions (p : Parameters) : List Expr := p.typeHints ++ p.evaluated

theorem filter_map_perm {α β : Type} (f g : α → Option β) (as : List α) :
    (as.filterMap f ++ as.filterMap g).Perm (as.flatMap fun a => (f a).toList ++ (g a).toList) := by
  have hcons : ∀ (h : α → Option β) (a : α) (as : List α),
      (a :: as).filterMap h = (h a).toList ++ as.filterMap h := by
    intro h a as
    cases heq : h a <;> simp [heq]
  induction as with
  | nil => exact .nil
  | cons a as ih =>
    rw [hcons, hcons, List.flatMap_cons]
    have hswap : ((f a).toList ++ as.filterMap f ++ ((g a).toList ++ as.filterMap g)).Perm
        ((f a).toList ++ (g a).toList ++ (as.filterMap f ++ as.filterMap g)) := by
      rw [List.append_assoc, List.append_assoc]
      refine List.Perm.append_left _ ?_
      rw [← List.append_assoc, ← List.append_assoc]
      exact List.perm_append_comm.append_right _
    exact hswap.trans (ih.append_left _)

theorem of_parts_perm (positional star : List Parameter) :
    (Parameters.ofParts positional star).expressions.Perm
      ((positional ++ star).flatMap Parameter.expressions) := by
  have hdefaults : (star.filterMap (·.default) ++ positional.filterMap (·.default)).Perm
      ((positional ++ star).filterMap (·.default)) := by
    rw [List.filterMap_append]
    exact List.perm_append_comm
  exact (hdefaults.append_left _).trans (filter_map_perm _ _ _)

variable {self : Rules} {s : Setting} {i : Nat} {style : ParameterStyle}

theorem end_of_parameter_from : From s i (endOfParameter style) fun j _ => Passed s i j [] := by
  refine .orElse ?_ ?_
  · exact (comma_bare i).bind fun j _ h => .pure h.toPassed
  · exact (From.ahead .symbol).mono fun j _ h => h ▸ .nil

section
variable (hself : self.Sound) (hs : s.Sound)
include hself hs

theorem type_hint_takes : TakesOne s (typeHint self) :=
  (hself.expression hs).after hs .symbol

theorem star_type_hint_takes : TakesOne s (starTypeHint self) := by
  refine TakesOne.after (Takes.orElse (fun i => ?_) (hself.expression hs)) hs .symbol
  refine .located hs ((Takes.symbol i).bind fun j _ h => ?_)
  refine (h.next hs (hself.bitwiseOr hs)).bind fun k v h => ?_
  exact .pure (h.wrap hs fun x => ⟨rfl, .refl _, trivial⟩)

theorem default_value_takes : TakesOne s (defaultValue self) :=
  ((hself.expression hs).after hs .symbol).orElse fun _ => .diagnosing hs

theorem parameter_takes : From s i (parameter self style) fun j p =>
    Took s i j p.typeHint.toList ∧ p.default = none := by
  refine (Takes.name i).bind fun j t h => ?_
  simp only
  split
  · refine (h.skip hs (type_hint_takes hself hs).optional).bind fun k a h => ?_
    exact .pure ⟨h, rfl⟩
  · refine From.bind (R := fun k a => k = j ∧ a = none) (.pure ⟨rfl, rfl⟩) fun k a hk => ?_
    obtain ⟨rfl, rfl⟩ := hk
    exact .pure ⟨h, rfl⟩

theorem parameter_no_default_takes :
    Takes s Parameter.expressions (parameterNoDefault self style) := by
  intro i
  refine (parameter_takes hself hs).bind fun j p h => ?_
  refine (h.1.skip_bare hs end_of_parameter_from).bind fun k _ hk => .pure ?_
  rw [Parameter.expressions, h.2]
  exact (List.append_nil _).symm ▸ hk

theorem parameter_star_type_hint_takes :
    Takes s Parameter.expressions (parameterStarTypeHint self style) := by
  intro i
  refine (Takes.name i).bind fun j t h => ?_
  refine (h.next hs (star_type_hint_takes hself hs)).bind fun k a h => ?_
  refine (h.skip_bare hs end_of_parameter_from).bind fun l _ h => ?_
  exact .pure h

theorem parameter_with_default_takes :
    Takes s Parameter.expressions (parameterWithDefault self style) := by
  intro i
  refine (parameter_takes hself hs).bind fun j p h => ?_
  refine (h.1.next hs (default_value_takes hself hs)).bind fun k d h => ?_
  refine (h.skip_bare hs end_of_parameter_from).bind fun l _ h => ?_
  exact .pure h

theorem parameter_maybe_default_takes :
    Takes s Parameter.expressions (parameterMaybeDefault self style) := by
  intro i
  refine (parameter_takes hself hs).bind fun j p h => ?_
  refine (h.1.skip hs (default_value_takes hself hs).optional).bind fun k d h => ?_
  refine (h.skip_bare hs end_of_parameter_from).bind fun l _ h => ?_
  exact .pure h

omit hself in
theorem slash_end_bare : TakesBare s (slashEnd style) := by
  intro i
  refine (Takes.symbol i).bind fun j t h => ?_
  refine (h.skip_bare hs end_of_parameter_from).bind fun k _ h => ?_
  exact .pure h

theorem slash_no_default_takes :
    Takes s (fun ps => ps.flatMap Parameter.expressions) (slashNoDefault self style) := by
  intro i
  refine ((parameter_no_default_takes hself hs).many1 hs i).bind fun j ps h => ?_
  refine (h.next_bare hs (slash_end_bare hs)).bind fun k _ h => ?_
  exact .pure h

theorem slash_with_default_takes :
    Takes s (fun ps => ps.flatMap Parameter.expressions) (slashWithDefault self style) := by
  intro i
  refine ((parameter_no_default_takes hself hs).many hs).bind fun j ps h => ?_
  refine (h.next hs ((parameter_with_default_takes hself hs).many1 hs)).bind fun k ds h => ?_
  refine (h.next_bare hs (slash_end_bare hs)).bind fun l _ h => .pure ?_
  simpa only [List.flatMap_append] using h

theorem keyword_parameters_takes :
    Takes s (fun ps => ps.flatMap Parameter.expressions) (keywordParameters self style) := by
  intro i
  refine .orElse (.diagnosing hs) ?_
  refine (Takes.symbol i).bind fun j _ h => ?_
  refine (h.next hs (parameter_no_default_takes hself hs)).bind fun k p h => .pure ?_
  simpa only [List.flatMap_singleton, List.nil_append] using h

/-- Parameters, and perhaps one with two stars behind them. -/
theorem keyword_tail_from {j : Nat} {ps : List Parameter}
    (h : Took s i j (ps.flatMap Parameter.expressions)) :
    From s j (do
        let ks ← optional (keywordParameters self style)
        return ps ++ ks.getD [])
      fun k qs => Took s i k (qs.flatMap Parameter.expressions) := by
  refine (h.skip hs (keyword_parameters_takes hself hs).optional_flat).bind fun k ks h => .pure ?_
  rwa [List.flatMap_append]

theorem star_parameters_takes :
    Takes s (fun ps => ps.flatMap Parameter.expressions) (starParameters self style) := by
  have hmaybe : Takes s Parameter.expressions (parameterMaybeDefault self style) :=
    parameter_maybe_default_takes hself hs
  intro i
  refine .first (.diagnosing hs) (.first ?_ (.first ?_ (.first ?_
    (.first (keyword_parameters_takes hself hs i) .none))))
  · refine (Takes.symbol i).bind fun j _ h => ?_
    refine (h.next hs (parameter_no_default_takes hself hs)).bind fun k p h => ?_
    exact (h.skip hs (hmaybe.many hs)).bind fun l ps h => keyword_tail_from hself hs h
  · split
    · refine (Takes.symbol i).bind fun j _ h => ?_
      refine (h.next hs (parameter_star_type_hint_takes hself hs)).bind fun k p h => ?_
      exact (h.skip hs (hmaybe.many hs)).bind fun l ps h => keyword_tail_from hself hs h
    · exact .refuse
  · refine (Takes.symbol i).bind fun j _ h => ?_
    refine (h.next_bare hs comma_bare).bind fun k _ h => ?_
    refine (h.next hs (hmaybe.many1 hs)).bind fun l ps h => ?_
    exact keyword_tail_from hself hs h

omit hself hs in
theorem of_parts_took {j : Nat} {positional star : List Parameter}
    (h : Took s i j (positional.flatMap Parameter.expressions ++
      star.flatMap Parameter.expressions)) :
    Took s i j (Parameters.ofParts positional star).expressions := by
  rw [← List.flatMap_append] at h
  exact h.subperm (of_parts_perm positional star).subperm

theorem parameters_takes : Takes s Parameters.expressions (parameters self style) := by
  have hplain : Takes s Parameter.expressions (parameterNoDefault self style) :=
    parameter_no_default_takes hself hs
  have hdefault : Takes s Parameter.expressions (parameterWithDefault self style) :=
    parameter_with_default_takes hself hs
  have hstar : Takes s (fun ps => ps.flatMap Parameter.expressions) (starParameters self style) :=
    star_parameters_takes hself hs
  intro i
  refine .orElse (.diagnosing hs) (.first ?_ (.first ?_ (.first ?_ (.first ?_ (.first ?_ .none)))))
  · refine (slash_no_default_takes hself hs i).bind fun j a h => ?_
    refine (h.skip hs (hplain.many hs)).bind fun k b h => ?_
    refine (h.skip hs (hdefault.many hs)).bind fun l c h => ?_
    refine (h.skip hs hstar.optional_flat).bind fun m d h => .pure (of_parts_took ?_)
    rwa [List.flatMap_append, List.flatMap_append]
  · refine (slash_with_default_takes hself hs i).bind fun j a h => ?_
    refine (h.skip hs (hdefault.many hs)).bind fun k b h => ?_
    refine (h.skip hs hstar.optional_flat).bind fun l c h => .pure (of_parts_took ?_)
    rwa [List.flatMap_append]
  · refine (hplain.many1 hs i).bind fun j a h => ?_
    refine (h.skip hs (hdefault.many hs)).bind fun k b h => ?_
    refine (h.skip hs hstar.optional_flat).bind fun l c h => .pure (of_parts_took ?_)
    rwa [List.flatMap_append]
  · refine (hdefault.many1 hs i).bind fun j a h => ?_
    exact (h.skip hs hstar.optional_flat).bind fun k b h => .pure (of_parts_took h)
  · exact (hstar i).bind fun j star h => .pure (of_parts_took h)

theorem function_parameters_takes : Takes s Parameters.expressions (functionParameters self) :=
  parameters_takes hself hs

theorem lambda_parameters_takes : Takes s Parameters.expressions (lambdaParameters self) :=
  parameters_takes hself hs

end
end BacktestAudit.Syntax.Grammar
