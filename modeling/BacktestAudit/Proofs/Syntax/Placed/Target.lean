import BacktestAudit.Proofs.Syntax.Placed.Operation
import BacktestAudit.Syntax.Grammar.Target

/-!
The places of targets.
-/
namespace BacktestAudit.Syntax.Grammar
open BacktestAudit.Source BacktestAudit.Syntax.Parser
set_option autoImplicit false

variable {self : Rules} {s : Setting} {i : Nat}

theorem goes_on_bare : TakesBare s goesOn := is_any_of_bare _

theorem ongoing_links {link : Parser (Expr → Extent → Expr)} (hlink : Links s link) :
    Links s (do
      let build ← link
      ahead goesOn
      return build) := by
  intro j
  refine (hlink j).bind fun k build h => ?_
  exact (From.ahead (goes_on_bare k)).bind fun l _ hl => .pure (hl ▸ h)

section
variable (hself : self.Sound) (hs : s.Sound)
include hself hs

theorem target_primary_takes : TakesOne s (targetPrimary self) := by
  have hbase : TakesOne s do
      let v ← atom self
      ahead goesOn
      return v := by
    intro i
    refine (atom_takes hself hs i).bind fun j v h => ?_
    exact (From.ahead (goes_on_bare j)).bind fun k _ hk => .pure (hk ▸ h)
  refine .remember (chain_takes hs hbase fun j => ?_)
  exact .first (ongoing_links (member_link_links hs) j)
    (.first (ongoing_links (subscript_link_links hself hs) j)
      (.first (ongoing_links (generator_link_links hself hs) j)
        (.first (ongoing_links (call_link_links hself hs) j) .none)))

theorem part_target_takes : TakesOne s (partTarget self) := by
  intro i
  refine .orElse (.located hs ?_) (.located hs ?_)
  · refine (target_primary_takes hself hs i).bind fun j v hv => ?_
    refine (Takes.symbol j).bind fun k _ hpoint => ?_
    refine From.anyName.bind fun l t ht => ?_
    obtain ⟨rfl, ht, hkind⟩ := ht
    have hname : Took s k (k + 1) [] := .token ht
    have hall : Took s i (k + 1) [v] := by
      simpa using (hv.append hpoint.toPassed hs).append hname.toPassed hs
    refine (From.notAhead (goes_on_bare (k + 1))).bind fun l _ hl => ?_
    obtain rfl := hl
    refine .pure ⟨hall.bare, fun x hx => ?_⟩
    exact hall.enclose hs hx hall.toHeld (member_fitted hs hv hpoint.le ht hkind hx)
  · refine (target_primary_takes hself hs i).bind fun j v h => ?_
    refine (h.next_bare hs .symbol).bind fun k _ h => ?_
    refine (h.next hs (slices_takes hself hs)).bind fun l index h => ?_
    refine (h.next_bare hs .symbol).bind fun m _ h => ?_
    refine (From.notAhead (goes_on_bare m)).bind fun n _ hn => ?_
    obtain rfl := hn
    exact .pure (h.wrap hs fun x => ⟨rfl, .refl _, trivial⟩)

/-! ## Targets of assignments and loops -/

omit hself in
/-- A target in brackets is the target itself. -/
theorem in_brackets_takes {target : Parser Expr} (htarget : TakesOne s target) :
    TakesOne s (do
      let _ ← symbol "("
      let v ← target
      let _ ← symbol ")"
      return v) := by
  intro i
  refine (Takes.symbol i).bind fun j _ h => ?_
  refine (h.next hs htarget).bind fun k v h => ?_
  exact (h.next_bare hs .symbol).bind fun l _ h => .pure h

theorem star_atom_takes : TakesOne s (starAtom self) := by
  intro i
  refine .first (bound_name_takes hs i)
    (.first (in_brackets_takes hs (hself.starAtomTarget hs) i) (.first (.located hs ?_)
      (.first (.located hs ?_) .none)))
  · refine (Takes.symbol i).bind fun j _ h => ?_
    have htargets : Takes s id
        ((do
          let a ← self.starTarget
          let rest ← many1 (do let _ ← comma; self.starTarget)
          let _ ← optional comma
          return a :: rest)
        <|> do
          let a ← self.starTarget
          let _ ← comma
          return [a]) := by
      intro i
      refine .orElse ?_ ?_
      · refine (hself.starTarget hs i).bind fun j a h => ?_
        refine (h.next hs (((hself.starTarget hs).after hs comma_bare).many1 hs)).bind
          fun k rest h => ?_
        exact (h.skip_bare hs comma_bare.optional).bind fun l _ h => .pure h
      · refine (hself.starTarget hs i).bind fun j a h => ?_
        exact (h.next_bare hs comma_bare).bind fun k _ h => .pure h
    refine (h.skip hs htargets.optional_list).bind fun k es h => ?_
    refine (h.next_bare hs .symbol).bind fun l _ h => ?_
    exact .pure (h.wrap hs fun x => ⟨rfl, .refl _, trivial⟩)
  · refine (Takes.symbol i).bind fun j _ h => ?_
    have htargets := comma_list_takes_one hs (hself.starTarget hs)
    refine (h.skip hs htargets.optional_list).bind fun k es h => ?_
    refine (h.next_bare hs .symbol).bind fun l _ h => ?_
    exact .pure (h.wrap hs fun x => ⟨rfl, .refl _, trivial⟩)

theorem star_atom_target_takes : TakesOne s (starAtomTarget self) :=
  .remember ((part_target_takes hself hs).orElse (star_atom_takes hself hs))

theorem star_target_takes : TakesOne s (starTarget self) := by
  refine .remember fun i => .orElse (.located hs ?_) (star_atom_target_takes hself hs i)
  refine (Takes.symbol i).bind fun j _ h => ?_
  refine (From.notAhead (Takes.symbol j)).bind fun k _ hk => ?_
  obtain rfl := hk
  refine (h.next hs (hself.starTarget hs)).bind fun l v h => ?_
  exact .pure (h.wrap hs fun x => ⟨rfl, .refl _, trivial⟩)

theorem star_targets_takes : TakesOne s (starTargets self) := by
  intro i
  refine .orElse ?_ (.located hs ?_)
  · refine (star_target_takes hself hs i).bind fun j v h => ?_
    exact (From.notAhead (comma_bare j)).bind fun k _ hk => .pure (hk ▸ h)
  · refine (star_target_takes hself hs i).bind fun j a h => ?_
    have hmore := (star_target_takes hself hs).after hs comma_bare
    refine (h.skip hs (hmore.many hs)).bind fun k rest h => ?_
    refine (h.skip_bare hs comma_bare.optional).bind fun l _ h => ?_
    exact .pure (h.wrap hs fun x => ⟨rfl, .refl _, trivial⟩)

theorem single_target_takes : TakesOne s (singleTarget self) :=
  fun i => .first (part_target_takes hself hs i) (.first (bound_name_takes hs i)
    (.first (in_brackets_takes hs (hself.singleTarget hs) i) .none))

theorem part_target_single : From s i (partTarget self) fun _ t => t.isSingleTarget = true := by
  refine .orElse (.located_any ?_) (.located_any ?_)
  · refine (target_primary_takes hself hs i).bind fun j v _ => ?_
    refine (Takes.symbol j).bind fun k _ _ => (Takes.name k).bind fun l t _ => ?_
    exact (From.notAhead (goes_on_bare l)).bind fun m _ _ => .pure fun x => rfl
  · refine (target_primary_takes hself hs i).bind fun j v _ => ?_
    refine (Takes.symbol j).bind fun k _ _ => (slices_takes hself hs k).bind fun l index _ => ?_
    refine (Takes.symbol l).bind fun m _ _ => ?_
    exact (From.notAhead (goes_on_bare m)).bind fun n _ _ => .pure fun x => rfl

omit hself hs in
theorem bound_name_single : From s i boundName fun _ t => t.isSingleTarget = true :=
  .located_any ((Takes.name i).bind fun _ _ _ => .pure fun _ => rfl)

theorem single_target_single : From s i (singleTarget self) fun _ t => t.isSingleTarget = true := by
  refine .first (part_target_single hself hs) (.first bound_name_single (.first ?_ .none))
  refine (Takes.symbol i).bind fun j _ _ => (hself.isSingle hs).bind fun k v hv => ?_
  exact (Takes.symbol k).bind fun l _ _ => .pure hv

/-! ## Targets of deletions -/

theorem deletion_targets_takes : Takes s id (deletionTargets self) :=
  comma_list_takes_one hs (hself.deletionTarget hs)

theorem deletion_atom_takes : TakesOne s (deletionAtom self) := by
  intro i
  refine .first (bound_name_takes hs i)
    (.first (in_brackets_takes hs (hself.deletionTarget hs) i) (.first (.located hs ?_)
      (.first (.located hs ?_) .none)))
  · refine (Takes.symbol i).bind fun j _ h => ?_
    refine (h.skip hs (deletion_targets_takes hself hs).optional_list).bind fun k es h => ?_
    refine (h.next_bare hs .symbol).bind fun l _ h => ?_
    exact .pure (h.wrap hs fun x => ⟨rfl, .refl _, trivial⟩)
  · refine (Takes.symbol i).bind fun j _ h => ?_
    refine (h.skip hs (deletion_targets_takes hself hs).optional_list).bind fun k es h => ?_
    refine (h.next_bare hs .symbol).bind fun l _ h => ?_
    exact .pure (h.wrap hs fun x => ⟨rfl, .refl _, trivial⟩)

theorem deletion_target_takes : TakesOne s (deletionTarget self) :=
  .remember ((part_target_takes hself hs).orElse (deletion_atom_takes hself hs))

end
end BacktestAudit.Syntax.Grammar
