import BacktestAudit.Proofs.Syntax.Placed.Atom
import BacktestAudit.Proofs.Syntax.Placed.Parameter
import BacktestAudit.Syntax.Grammar.Operation

/-!
The places of expressions with operators. A chain grows to the right from where it began; each link
takes what it adds.
-/
namespace BacktestAudit.Syntax.Grammar
open BacktestAudit.Source BacktestAudit.Syntax.Parser
set_option autoImplicit false

variable {self : Rules} {s : Setting} {i : Nat}

/-! ## Chains -/

/-- A link takes something, and extends an expression in front of it to an expression in place of
both. -/
def Links (s : Setting) (link : Parser (Expr → Extent → Expr)) : Prop :=
  ∀ j, From s j link fun k build => Took s j k [] ∧
    ∀ i e x, Took s i j [e] → Covers s i k x → (build e x).extent = x ∧
      Held s i k (build e x).children ∧ (build e x).FittedIn s

/-- What an optional link leaves behind an expression. -/
def Linked (s : Setting) (i j : Nat) (e : Expr) (k : Nat) : Option (Expr → Extent → Expr) → Prop
  | some build => Took s j k [] ∧ ∀ x, Covers s i k x → (build e x).extent = x ∧
      Held s i k (build e x).children ∧ (build e x).FittedIn s
  | none => k = j

theorem chain_from_takes (hs : s.Sound) {link : Parser (Expr → Extent → Expr)}
    (hlink : Links s link) (n : Nat) {j : Nat} {e : Expr} (h : Took s i j [e]) :
    From s j (chainFrom i link n e) fun k e => Took s i k [e] := by
  -- Each link encloses the chain so far, so what has been taken is one expression all the time.
  induction n generalizing j e with
  | zero => exact .pure h
  | succ n ih =>
    have hoptional : From s j (optional link) (Linked s i j e) :=
      .optional ((hlink j).mono fun k build hbuild => ⟨hbuild.1, fun x => hbuild.2 i e x h⟩) rfl
    refine hoptional.bind fun k o ho => ?_
    cases o with
    | none =>
      obtain rfl := ho
      exact .pure h
    | some build =>
      have hboth : Took s i k [e] := h.append ho.1.toPassed hs
      refine (From.extentFrom hboth.bare hs).bind fun l x hx => ?_
      obtain ⟨rfl, hx⟩ := hx
      obtain ⟨hextent, hchildren, hfitted⟩ := ho.2 x hx
      exact ih (hboth.enclose hs (hextent.symm ▸ hx) hchildren hfitted)

theorem chain_takes (hs : s.Sound) {base : Parser Expr} {link : Parser (Expr → Extent → Expr)}
    (hbase : TakesOne s base) (hlink : Links s link) : TakesOne s (chain base link) := by
  intro i
  refine From.position.bind fun j n hn => ?_
  obtain ⟨rfl, rfl⟩ := hn
  refine (hbase _).bind fun j e h => ?_
  intro p hp hmemo
  exact chain_from_takes hs hlink _ h p hp hmemo

/-- A link that leaves the expression in front of it as it is, with other expressions behind. -/
theorem plain_link (hs : s.Sound) {j k : Nat} {es : List Expr} (h : Took s j k es)
    {build : Expr → Extent → Expr}
    (hbuild : ∀ e x, (build e x).extent = x ∧ (build e x).children = e :: es ∧
      (build e x).FittedIn s) :
    Took s j k [] ∧ ∀ i e x, Took s i j [e] → Covers s i k x → (build e x).extent = x ∧
      Held s i k (build e x).children ∧ (build e x).FittedIn s := by
  refine ⟨h.bare, fun i e x he _ => ?_⟩
  obtain ⟨hextent, hchildren, hfitted⟩ := hbuild e x
  exact ⟨hextent, hchildren ▸ he.toHeld.append h.toHeld hs, hfitted⟩

theorem covers_stop (hs : s.Sound) {k : Nat} {t : Token} {x : Extent} (hx : Covers s i (k + 1) x)
    (ht : WrittenAt s k t) : x.stop = t.stop := by
  obtain ⟨b, u, _, hb, hu, hstop⟩ := hx.last
  have hle := hs.stop_le_stop hu ht (Nat.le_of_lt_succ hb)
  have hge := hx.stop_le k t (Nat.lt_succ_self k) ht
  omega

theorem member_fitted (hs : s.Sound) {j k : Nat} {v : Expr} {t : Token} {x : Extent}
    (hv : Took s i j [v]) (hjk : j ≤ k) (ht : WrittenAt s k t) (hkind : t.kind = .name)
    (hx : Covers s i (k + 1) x) : (Expr.member x v t.text).FittedIn s := by
  have hsize := hs.name_le ht hkind
  have hstop := (hv.stands v (List.mem_singleton.mpr rfl)).stop_le hs ht hjk
  have hend := covers_stop hs hx ht
  exact ⟨⟨hsize.1, by omega⟩, t, .own ht, hkind, rfl, hend⟩

theorem member_link_links (hs : s.Sound) : Links s memberLink := by
  intro j
  refine (Takes.symbol j).bind fun k _ hpoint => ?_
  refine From.anyName.bind fun l t ht => ?_
  obtain ⟨rfl, ht, hkind⟩ := ht
  have hname : Took s k (k + 1) [] := .token ht
  have hlink : Took s j (k + 1) [] := hpoint.append hname.toPassed hs
  refine .pure ⟨hlink, fun i v x hv hx => ⟨rfl, hv.toHeld.append hlink.toHeld hs, ?_⟩⟩
  exact member_fitted hs hv hpoint.le ht hkind hx

section
variable (hself : self.Sound) (hs : s.Sound)
include hself hs

theorem generator_link_links : Links s (generatorLink self) := by
  intro j
  refine (generator_takes hself hs).bind fun k g hg => ?_
  obtain ⟨hg, hkeyword⟩ := hg
  refine .pure ⟨hg.bare, fun i v x hv hx => ?_⟩
  have hnone : ¬∃ a ∈ [g], a.isKeyword = true := by
    rintro ⟨a, ha, hk⟩
    rw [List.mem_singleton.mp ha, hkeyword] at hk
    cases hk
  have hbehind : ∀ a ∈ [g], v.extent.stop ≤ a.extent.start := fun a ha =>
    (hv.stands v (List.mem_singleton.mpr rfl)).stop_le_start (hg.stands a ha) hs
  refine ⟨rfl, hv.toHeld.append hg.toHeld hs,
    ⟨?_, fun a ha hk => absurd ⟨a, ha, hk⟩ hnone, hbehind⟩, (absurd · hnone)⟩
  obtain ⟨bracket, hbracket⟩ := hg.starts hg.lt
  have hstop := (hv.stands v (List.mem_singleton.mpr rfl)).stop_le hs hbracket (Nat.le_refl _)
  have hlt := hs.start_lt hbracket
  have hend := hx.stop_le j bracket hg.lt hbracket
  change v.extent.stop < x.stop
  omega

theorem call_link_links : Links s (callLink self) := by
  intro j
  refine (Takes.symbol j).bind fun k _ hopen => ?_
  refine (hopen.skip hs (arguments_takes hself hs).optional_list).bind fun l as has => ?_
  refine From.symbol_written.bind fun m _ hclose => ?_
  obtain ⟨rfl, bracket, hbracket, htext⟩ := hclose
  have hclose : Took s l (l + 1) [] := .token hbracket
  refine .pure ⟨(has.append hclose.toPassed hs).bare, fun i v x hv hx => ?_⟩
  have hboth : Held s i l (v :: as.getD []) := hv.toHeld.append has.toHeld hs
  have hend : x.stop = bracket.stop := covers_stop hs hx hbracket
  have hbefore : ∀ c ∈ v :: as.getD [], c.extent.stop < x.stop := by
    intro c hc
    have hstop := (hboth.stands c hc).stop_le hs hbracket (Nat.le_refl _)
    have hlt := hs.start_lt hbracket
    omega
  have hbehind : ∀ a ∈ as.getD [], v.extent.stop ≤ a.extent.start := fun a ha =>
    (hv.stands v (List.mem_singleton.mpr rfl)).stop_le_start (has.stands a ha) hs
  have hheld : Held s i (l + 1) (v :: as.getD []) :=
    List.append_nil (v :: as.getD []) ▸ hboth.append hclose.toHeld hs
  exact ⟨rfl, hheld, ⟨hbefore v (List.mem_cons_self ..),
    fun a ha _ => hbefore a (List.mem_cons_of_mem v ha), hbehind⟩,
    fun _ => ⟨bracket, .own hbracket, htext, hend⟩⟩

theorem subscript_link_links : Links s (subscriptLink self) := by
  intro j
  refine (Takes.symbol j).bind fun k _ h => ?_
  refine (h.next hs (slices_takes hself hs)).bind fun l index h => ?_
  refine (h.next_bare hs Takes.symbol).bind fun m _ h => ?_
  exact .pure (plain_link hs h fun e x => ⟨rfl, rfl, trivial⟩)

theorem primary_takes : TakesOne s (primary self) := by
  refine .remember (chain_takes hs (atom_takes hself hs) fun j => ?_)
  exact .first (member_link_links hs j) (.first (generator_link_links hself hs j)
    (.first (call_link_links hself hs j) (.first (subscript_link_links hself hs j) .none)))

omit hself in
theorem binary_chain_takes (ops : List (String × BinaryOp)) {operand : Parser Expr}
    (hoperand : TakesOne s operand) : TakesOne s (binaryChain ops operand) := by
  refine chain_takes hs hoperand fun j => .first_of_map fun op _ => ?_
  refine (Takes.symbol j).bind fun k _ h => ?_
  refine (h.next hs hoperand).bind fun l r h => ?_
  exact .pure (plain_link hs h fun e x => ⟨rfl, rfl, trivial⟩)

/-! ## Operators by rank -/

theorem await_primary_takes : TakesOne s (awaitPrimary self) := by
  refine .remember fun i => .orElse (.located hs ?_) (primary_takes hself hs i)
  refine (Takes.symbol i).bind fun j _ h => ?_
  refine (h.next hs (primary_takes hself hs)).bind fun k v h => ?_
  exact .pure (h.wrap hs fun x => ⟨rfl, .refl _, trivial⟩)

theorem power_takes : TakesOne s (power self) := by
  intro i
  refine .orElse (.located hs ?_) (await_primary_takes hself hs i)
  refine (await_primary_takes hself hs i).bind fun j b h => ?_
  refine (h.next_bare hs Takes.symbol).bind fun k _ h => ?_
  refine (h.next hs (hself.factor hs)).bind fun l x h => ?_
  exact .pure (h.wrap hs fun x => ⟨rfl, .refl _, trivial⟩)

theorem signed_takes (text : String) (op : UnaryOp) : TakesOne s (signed self text op) := by
  intro i
  refine .located hs ((Takes.symbol i).bind fun j _ h => ?_)
  refine (h.next hs (hself.factor hs)).bind fun k v h => ?_
  exact .pure (h.wrap hs fun x => ⟨rfl, .refl _, trivial⟩)

theorem factor_takes : TakesOne s (factor self) :=
  .remember fun i => .first (signed_takes hself hs _ _ i) (.first (signed_takes hself hs _ _ i)
    (.first (signed_takes hself hs _ _ i) (.first (power_takes hself hs i) .none)))

theorem term_takes : TakesOne s (term self) :=
  .remember (binary_chain_takes hs _ (factor_takes hself hs))

theorem sum_takes : TakesOne s (sum self) :=
  .remember (binary_chain_takes hs _ (term_takes hself hs))

theorem shift_expr_takes : TakesOne s (shiftExpr self) :=
  .remember (binary_chain_takes hs _ (sum_takes hself hs))

theorem bitwise_and_takes : TakesOne s (bitwiseAnd self) :=
  .remember (binary_chain_takes hs _ (shift_expr_takes hself hs))

theorem bitwise_xor_takes : TakesOne s (bitwiseXor self) :=
  .remember (binary_chain_takes hs _ (bitwise_and_takes hself hs))

theorem bitwise_or_takes : TakesOne s (bitwiseOr self) :=
  .remember (binary_chain_takes hs _ (bitwise_xor_takes hself hs))

omit hself in
theorem comparison_op_bare : TakesBare s comparisonOp := by
  have hone : ∀ {text : String} {b : Bool}, TakesBare s (do let _ ← symbol text; return b) :=
    fun j => (Takes.symbol j).bind fun _ _ h => .pure h
  have htwo : ∀ {text more : String} {b : Bool},
      TakesBare s (do let _ ← symbol text; let _ ← symbol more; return b) := by
    intro text more b j
    refine (Takes.symbol j).bind fun k _ h => ?_
    exact (h.next_bare hs Takes.symbol).bind fun _ _ h => .pure h
  intro i
  refine .first (hone i) (.first (hone i) (.first (hone i) (.first (hone i) (.first (hone i) ?_))))
  exact .first (hone i) (.first (htwo i) (.first (hone i) (.first (htwo i) (.first (hone i) .none))))

theorem comparison_takes : TakesOne s (comparison self) := by
  intro i
  refine .orElse (.located hs ?_) (bitwise_or_takes hself hs i)
  refine (bitwise_or_takes hself hs i).bind fun j a h => ?_
  have hpair : Takes s (fun p => [p.2]) do
      let op ← comparisonOp
      return (op, ← bitwiseOr self) := by
    intro i
    refine (comparison_op_bare hs i).bind fun j op h => ?_
    exact (h.next hs (bitwise_or_takes hself hs)).bind fun k r h => .pure h
  refine (h.next hs (hpair.many1 hs)).bind fun k rest h => .pure (h.wrap hs fun x => ?_)
  rw [← List.map_eq_flatMap]
  exact ⟨rfl, .refl _, trivial⟩

theorem inversion_takes : TakesOne s (inversion self) := by
  refine .remember fun i => .orElse (.located hs ?_) (comparison_takes hself hs i)
  refine (Takes.symbol i).bind fun j _ h => ?_
  refine (h.next hs (hself.inversion hs)).bind fun k v h => ?_
  exact .pure (h.wrap hs fun x => ⟨rfl, .refl _, trivial⟩)

omit hself in
theorem boolean_chain_takes (op : String) {operand : Parser Expr} (hoperand : TakesOne s operand) :
    TakesOne s (booleanChain op operand) := by
  intro i
  refine .orElse (.located hs ?_) (hoperand i)
  refine (hoperand i).bind fun j a h => ?_
  refine (h.next hs ((hoperand.after hs Takes.symbol).many1 hs)).bind fun k rest h => ?_
  exact .pure (h.wrap hs fun x => ⟨rfl, .refl _, trivial⟩)

theorem conjunction_takes : TakesOne s (conjunction self) :=
  .remember (boolean_chain_takes hs _ (inversion_takes hself hs))

theorem disjunction_takes : TakesOne s (disjunction self) :=
  .remember (boolean_chain_takes hs _ (conjunction_takes hself hs))

/-! ## Whole expressions -/

theorem conditional_takes : TakesOne s (conditional self) := by
  intro i
  refine .located hs ((disjunction_takes hself hs i).bind fun j a h => ?_)
  refine (h.next_bare hs Takes.symbol).bind fun k _ h => ?_
  refine (h.next hs (disjunction_takes hself hs)).bind fun l b h => ?_
  refine (h.next_bare hs Takes.symbol).bind fun m _ h => ?_
  refine (h.next hs (hself.expression hs)).bind fun n c h => ?_
  refine .pure ((h.subperm (List.Perm.subperm ?_)).wrap hs fun x => ⟨rfl, .refl _, trivial⟩)
  exact List.Perm.swap a b [c]

theorem lambda_expr_takes : TakesOne s (lambdaExpr self) := by
  intro i
  refine .located hs ((Takes.symbol i).bind fun j _ h => ?_)
  have hparameters : From s j (optional (lambdaParameters self)) fun k ps =>
      Passed s j k (ps.getD .none).evaluated := by
    refine .optional ((lambda_parameters_takes hself hs j).mono fun k ps h => ?_) .nil
    exact h.toPassed.subperm (List.sublist_append_right ..).subperm
  refine (h.skip hs hparameters).bind fun k ps h => ?_
  refine (h.next_bare hs Takes.symbol).bind fun l _ h => ?_
  refine (h.next hs (hself.expression hs)).bind fun m body h => ?_
  exact .pure (h.wrap hs fun x => ⟨rfl, .refl _, trivial⟩)

theorem expression_takes : TakesOne s (expression self) :=
  .remember fun i => .first (.diagnosing hs) (.first (.diagnosing hs)
    (.first (conditional_takes hself hs i) (.first (disjunction_takes hself hs i)
      (.first (lambda_expr_takes hself hs i) .none))))

theorem named_expression_takes : TakesOne s (namedExpression self) := by
  intro i
  refine .first (assignment_expression_takes hself hs i) (.first ?_ (.first ?_ .none))
  · exact From.bind (R := fun _ _ => True) (.diagnosing hs) fun _ _ _ => .refuse
  · refine (expression_takes hself hs i).bind fun j v h => ?_
    exact (From.notAhead .symbol).bind fun k _ hk => .pure (hk ▸ h)

end
end BacktestAudit.Syntax.Grammar
