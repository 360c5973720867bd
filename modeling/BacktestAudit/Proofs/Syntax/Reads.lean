import BacktestAudit.Proofs.Syntax.Placed
import BacktestAudit.Proofs.Syntax.Proper

/-!
What parsers read. From a place on, a parser matches only with results that stand in a relation to
where they end, as long as what is remembered does; there is one rule for each way to build parsers.
-/
namespace BacktestAudit.Syntax
open BacktestAudit.Source BacktestAudit.Syntax.Parser
set_option autoImplicit false

/-! ## What is remembered -/

/-- A range that holds the expressions of statements that assign to what they may. -/
structure Houses (s : Setting) (i j : Nat) (ss : List Stmt) : Prop
    extends Held s i j (Stmt.expressionsOfAll ss) where
  proper : Stmt.areProper ss = true

/-- What a remembered result says of the range that it was read from. -/
def Node.TookFrom (s : Setting) (i j : Nat) : Node → Prop
  | .expr e => Took s i j [e]
  | .exprs es => Took s i j es
  | .stmts ss => Houses s i j ss
  | .unit => Held s i j []

/-- All that is remembered was read from where it is looked up. -/
def Remembers (s : Setting) (memo : Std.TreeMap Nat (Option (Node × Nat))) : Prop :=
  ∀ (key : Nat) (node : Node) (stop : Nat), memo[key]? = some (some (node, stop)) →
    node.TookFrom s (key / 32) stop

/-- Results that are remembered as they are. -/
class LawfulRemembered (α : Type) [Remembered α] : Prop where
  to_node_of_node : ∀ {node : Node} {a : α}, Remembered.ofNode? node = some a →
    Remembered.toNode a = node

instance : LawfulRemembered Expr where
  to_node_of_node {node _} h := by
    cases node <;> simp_all [Remembered.ofNode?, Remembered.toNode]

instance : LawfulRemembered (List Expr) where
  to_node_of_node {node _} h := by
    cases node <;> simp_all [Remembered.ofNode?, Remembered.toNode]

instance : LawfulRemembered (List Stmt) where
  to_node_of_node {node _} h := by
    cases node <;> simp_all [Remembered.ofNode?, Remembered.toNode]

instance : LawfulRemembered Unit where
  to_node_of_node {node _} h := by
    cases node <;> simp_all [Remembered.ofNode?, Remembered.toNode]

theorem remembers_empty (s : Setting) : Remembers s {} := by
  intro key node stop h
  rw [Std.TreeMap.getElem?_emptyc] at h
  cases h

theorem Remembers.insert {s : Setting} {memo : Std.TreeMap Nat (Option (Node × Nat))}
    (h : Remembers s memo) {key : Nat} {result : Option (Node × Nat)}
    (hresult : ∀ (node : Node) (stop : Nat), result = some (node, stop) →
      node.TookFrom s (key / 32) stop) :
    Remembers s (memo.insert key result) := by
  intro other node stop hget
  rw [Std.TreeMap.getElem?_insert] at hget
  split at hget
  · next heq =>
    rw [← Nat.compare_eq_eq.mp heq]
    exact hresult node stop (Option.some.inj hget)
  · exact h other node stop hget

/-! ## What a parser reads -/

/-- An outcome that remembers what was read, and whose result stands in a relation to where it
ends. -/
def Outcome.Meets {α : Type} (s : Setting) (R : Nat → α → Prop) : Outcome α → Prop
  | .matched a q => Remembers s q.memo ∧ R q.pos a
  | .refused q => Remembers s q.memo
  | .stopped _ => True

/-- From a place on, all outcomes of a parser meet a relation. -/
def From {α : Type} (s : Setting) (i : Nat) (m : Parser α) (R : Nat → α → Prop) : Prop :=
  ∀ p : Progress, p.pos = i → Remembers s p.memo → (m s p).Meets s R

namespace From

variable {α β : Type} {s : Setting} {i : Nat} {m : Parser α} {R R' : Nat → α → Prop}
  {S : Nat → β → Prop}

theorem mono (h : From s i m R) (hR : ∀ j a, R j a → R' j a) : From s i m R' := by
  intro p hp hmemo
  have hm := h p hp hmemo
  cases hrun : m s p with
  | matched a q =>
    rw [hrun] at hm
    exact ⟨hm.1, hR q.pos a hm.2⟩
  | refused q => rwa [hrun] at hm
  | stopped e => exact trivial

theorem pure {a : α} (h : R i a) : From s i (Pure.pure a) R := by
  intro p hp hmemo
  exact ⟨hmemo, hp ▸ h⟩

theorem bind {k : α → Parser β} (h : From s i m R) (hk : ∀ j a, R j a → From s j (k a) S) :
    From s i (m >>= k) S := by
  intro p hp hmemo
  have hm := h p hp hmemo
  change (Parser.bind m k s p).Meets s S
  unfold Parser.bind
  cases hrun : m s p with
  | matched a q =>
    rw [hrun] at hm
    exact hk q.pos a hm.2 q rfl hm.1
  | refused q => rwa [hrun] at hm
  | stopped e => exact trivial

theorem and (h : From s i m R) (h' : From s i m R') : From s i m fun j a => R j a ∧ R' j a := by
  intro p hp hmemo
  have hm := h p hp hmemo
  have hm' := h' p hp hmemo
  cases hrun : m s p with
  | matched a q =>
    rw [hrun] at hm hm'
    exact ⟨hm.1, hm.2, hm'.2⟩
  | refused q => rwa [hrun] at hm
  | stopped e => exact trivial

theorem refuse : From s i (Parser.refuse : Parser α) R := fun _ _ hmemo => hmemo

theorem raiseAt {line : Nat} {cause : Cause} : From s i (Parser.raiseAt line cause : Parser α) R :=
  fun _ _ _ => trivial

theorem raiseFurthest {cause : Cause} : From s i (Parser.raiseFurthest cause : Parser α) R :=
  fun _ _ _ => trivial

theorem orElse {n : Parser α} (hm : From s i m R) (hn : From s i n R) : From s i (m <|> n) R := by
  intro p hp hmemo
  have hfirst := hm p hp hmemo
  change (Parser.orElse m (fun _ => n) s p).Meets s R
  unfold Parser.orElse
  cases hrun : m s p with
  | matched a q => rwa [hrun] at hfirst
  | refused q =>
    rw [hrun] at hfirst
    exact hn { q with pos := p.pos } hp hfirst
  | stopped e => exact trivial

theorem first {ms : List (Parser α)} (hm : From s i m R) (hms : From s i (firstOf ms) R) :
    From s i (firstOf (m :: ms)) R :=
  .orElse hm hms

theorem none : From s i (firstOf ([] : List (Parser α))) R := refuse

theorem first_of_map {f : β → Parser α} {bs : List β} (h : ∀ b ∈ bs, From s i (f b) R) :
    From s i (firstOf (bs.map f)) R := by
  induction bs with
  | nil => exact none
  | cons b bs ih =>
    exact first (h b (List.mem_cons_self ..)) (ih fun c hc => h c (List.mem_cons_of_mem b hc))

theorem mapM {f : β → Parser α} {bs : List β} {P : β → α → Prop}
    (h : ∀ b ∈ bs, From s i (f b) fun j a => j = i ∧ P b a) :
    From s i (bs.mapM f) fun j as => j = i ∧ List.Forall₂ P bs as := by
  have hloop : ∀ (done bs : List β) (as : List α),
      (∀ b ∈ bs, From s i (f b) fun j a => j = i ∧ P b a) → List.Forall₂ P done as.reverse →
      From s i (List.mapM.loop f bs as) fun j as => j = i ∧ List.Forall₂ P (done ++ bs) as := by
    intro done bs
    induction bs generalizing done with
    | nil =>
      intro as _ has
      exact .pure ⟨rfl, (List.append_nil done).symm ▸ has⟩
    | cons b bs ih =>
      intro as hbs has
      refine (hbs b (List.mem_cons_self ..)).bind fun j a ha => ?_
      obtain ⟨rfl, ha⟩ := ha
      have hdone : List.Forall₂ P (done ++ [b]) (a :: as).reverse := by
        rw [List.reverse_cons]
        exact List.rel_append has (.cons ha .nil)
      rw [List.append_cons]
      exact ih (done ++ [b]) (a :: as) (fun c hc => hbs c (List.mem_cons_of_mem b hc)) hdone
  exact hloop [] bs [] h .nil

theorem commit {body : α → Parser β} {other : Parser β} (hm : From s i m R)
    (hbody : ∀ j a, R j a → From s j (body a) S) (hother : From s i other S) :
    From s i (commit m body other) S := by
  intro p hp hmemo
  have hfirst := hm p hp hmemo
  unfold Parser.commit
  cases hrun : m s p with
  | matched a q =>
    rw [hrun] at hfirst
    exact hbody q.pos a hfirst.2 q rfl hfirst.1
  | refused q =>
    rw [hrun] at hfirst
    exact hother { q with pos := p.pos } hp hfirst
  | stopped e => exact trivial

theorem optional {S : Nat → Option α → Prop} (h : From s i m fun j a => S j (some a))
    (hnone : S i .none) : From s i (optional m) S :=
  .orElse (h.bind fun _ _ ha => .pure ha) (.pure hnone)

theorem many {Q : Nat → List α → Prop} (hnil : Q i [])
    (hstep : ∀ j as, Q j as → From s j m fun k a => Q k (as ++ [a])) : From s i (many m) Q := by
  have hmany : ∀ n i as, Q i as → From s i (manyUpTo m n) fun j bs => Q j (as ++ bs) := by
    intro n
    induction n with
    | zero =>
      intro i as has
      refine .pure ?_
      rwa [List.append_nil]
    | succ n ih =>
      intro i as has p hp hmemo
      have hm := hstep i as has p hp hmemo
      unfold manyUpTo
      simp only
      cases hrun : m s p with
      | refused q =>
        rw [hrun] at hm
        refine ⟨hm, ?_⟩
        simp only [List.append_nil]
        exact hp ▸ has
      | stopped e => exact trivial
      | matched a q =>
        rw [hrun] at hm
        simp only
        split
        · exact hm
        · have hrest := ih q.pos (as ++ [a]) hm.2 q rfl hm.1
          cases hmore : manyUpTo m n s q with
          | matched bs r =>
            rw [hmore] at hrest
            refine ⟨hrest.1, ?_⟩
            simp only [List.append_cons as a bs]
            exact hrest.2
          | refused r =>
            rw [hmore] at hrest
            exact hrest
          | stopped e => exact trivial
  intro p hp hmemo
  exact hmany _ i [] hnil p hp hmemo

theorem many1_ne_nil (h : ∀ i, From s i m fun _ _ => True) :
    From s i (many1 m) fun _ as => as ≠ [] := by
  have hmany : ∀ j, From s j (Parser.many m) fun _ _ => True :=
    fun j => .many trivial fun k _ _ => h k
  exact (h i).bind fun j a _ => (hmany j).bind fun k as _ => .pure (List.cons_ne_nil a as)

theorem ahead (h : From s i m R) : From s i (ahead m) fun j _ => j = i := by
  intro p hp hmemo
  have hm := h p hp hmemo
  unfold Parser.ahead
  cases hrun : m s p with
  | matched a q =>
    rw [hrun] at hm
    exact ⟨hm.1, hp⟩
  | refused q => rwa [hrun] at hm
  | stopped e => exact trivial

theorem after_ahead {n : Parser β} (hm : From s i m R) (hn : From s i n S) :
    From s i (do Parser.ahead m; n) S :=
  hm.ahead.bind fun _ _ hj => hj ▸ hn

theorem notAhead (h : From s i m R) : From s i (notAhead m) fun j _ => j = i := by
  intro p hp hmemo
  have hm := h p hp hmemo
  unfold Parser.notAhead
  cases hrun : m s p with
  | matched a q =>
    rw [hrun] at hm
    exact hm.1
  | refused q =>
    rw [hrun] at hm
    exact ⟨hm, hp⟩
  | stopped e => exact trivial

theorem diagnosing (hs : s.Sound) : From s i (diagnosing m) R := by
  intro p _ hmemo
  unfold Parser.diagnosing
  rw [hs.plain]
  exact hmemo

theorem remember [Remembered α] [LawfulRemembered α] {rule : Rule}
    (h : From s i m fun j a => (Remembered.toNode a).TookFrom s i j) :
    From s i (remember rule m) fun j a => (Remembered.toNode a).TookFrom s i j := by
  intro p hp hmemo
  have hplace : (p.pos * 32 + rule.ctorIdx) / 32 = i := by
    have hrule : rule.ctorIdx < 32 := by cases rule <;> decide
    omega
  unfold Parser.remember
  simp only
  cases hget : p.memo[p.pos * 32 + rule.ctorIdx]? with
  | some result =>
    cases result with
    | none => exact hmemo
    | some found =>
      obtain ⟨node, stop⟩ := found
      have hnode := hmemo _ node stop hget
      simp only
      cases hof : (Remembered.ofNode? node : Option α) with
      | none => exact hmemo
      | some a =>
        rw [hplace, ← LawfulRemembered.to_node_of_node hof] at hnode
        exact ⟨hmemo, hnode⟩
  | none =>
    have hm := h p hp hmemo
    simp only
    cases hrun : m s p with
    | matched a q =>
      rw [hrun] at hm
      refine ⟨hm.1.insert fun node stop heq => ?_, hm.2⟩
      obtain ⟨rfl, rfl⟩ := Prod.mk.inj (Option.some.inj heq)
      rw [hplace]
      exact hm.2
    | refused q =>
      rw [hrun] at hm
      exact hm.insert nofun
    | stopped e => exact trivial

/-! ## Tokens -/

theorem peek : From s i peek fun j t => j = i ∧ s.stream.tokens[i]? = some t := by
  rintro p rfl hmemo
  unfold Parser.peek
  cases hget : s.stream.tokens[p.pos]? with
  | some t => exact ⟨hmemo, rfl, rfl⟩
  | none =>
    cases s.stream.ending with
    | some e => exact trivial
    | none => exact hmemo

theorem satisfy {test : Token → Bool} : From s i (satisfy test) fun j t =>
    j = i + 1 ∧ s.stream.tokens[i]? = some t ∧ test t = true := by
  refine peek.bind fun j t ht => ?_
  obtain ⟨rfl, hget⟩ := ht
  cases htest : test t with
  | true =>
    rintro p rfl hmemo
    exact ⟨hmemo, rfl, hget, htest⟩
  | false => exact refuse

theorem symbol_written {text : String} : From s i (symbol text) fun j _ =>
    j = i + 1 ∧ ∃ t, WrittenAt s i t ∧ t.text = text := by
  refine satisfy.mono fun j t ht => ?_
  obtain ⟨hj, hget, htest⟩ := ht
  rw [Bool.and_eq_true, Bool.or_eq_true, decide_eq_true_eq, decide_eq_true_eq] at htest
  refine ⟨hj, t, ⟨hget, ?_⟩, of_decide_eq_true htest.2⟩
  unfold Token.isLayout
  rcases htest.1 with hkind | hkind <;> rw [hkind]

theorem symbol {text : String} : From s i (symbol text) fun j _ => Took s i j [] :=
  symbol_written.mono fun _ _ ⟨hj, _, ht, _⟩ => hj ▸ .token ht

theorem kind {k : TokenKind} : From s i (kind k) fun j t =>
    j = i + 1 ∧ s.stream.tokens[i]? = some t ∧ t.kind = k :=
  satisfy.mono fun _ _ ⟨hj, hget, htest⟩ => ⟨hj, hget, of_decide_eq_true htest⟩

theorem boundary {k : TokenKind} : From s i (Parser.kind k) fun j _ => Held s i j [] :=
  kind.mono fun _ _ ⟨hj, hget, _⟩ => hj ▸ .token hget

theorem written {k : TokenKind} (hk : ∀ t : Token, t.kind = k → t.isLayout = false) :
    From s i (Parser.kind k) fun j t => j = i + 1 ∧ WrittenAt s i t ∧ t.kind = k :=
  kind.mono fun _ t ⟨hj, hget, hkind⟩ => ⟨hj, ⟨hget, hk t hkind⟩, hkind⟩

theorem anyName : From s i anyName fun j t => j = i + 1 ∧ WrittenAt s i t ∧ t.kind = .name :=
  written fun t ht => by rw [Token.isLayout, ht]

theorem number : From s i (Parser.kind .number) fun j _ => Took s i j [] :=
  (written fun t ht => by rw [Token.isLayout, ht]).mono fun _ _ ⟨hj, ht, _⟩ => hj ▸ .token ht

theorem string : From s i (Parser.kind .string) fun j t => j = i + 1 ∧ WrittenAt s i t :=
  (written fun t ht => by rw [Token.isLayout, ht]).mono fun _ _ ⟨hj, ht, _⟩ => ⟨hj, ht⟩

theorem name : From s i Parser.anyName fun j _ => Took s i j [] :=
  anyName.mono fun _ _ ⟨hj, ht, _⟩ => hj ▸ .token ht

theorem softKeyword {text : String} : From s i (softKeyword text) fun j _ => Took s i j [] := by
  refine satisfy.mono fun j t ht => ?_
  obtain ⟨rfl, hget, htest⟩ := ht
  refine .token ⟨hget, ?_⟩
  rw [Bool.and_eq_true, decide_eq_true_eq] at htest
  unfold Token.isLayout
  rw [htest.1]

/-! ## Extents -/

theorem position : From s i position fun j n => j = i ∧ n = i := by
  rintro p rfl hmemo
  exact ⟨hmemo, rfl, rfl⟩

theorem extentFrom {j : Nat} (h : Took s i j []) (hs : s.Sound) :
    From s j (extentFrom i) fun k x => k = j ∧ Covers s i j x := by
  rintro p rfl hmemo
  obtain ⟨first, last, hfirst, hlast, hcovers⟩ := h.covers hs
  unfold Parser.extentFrom
  rw [hfirst, hlast]
  exact ⟨hmemo, rfl, hcovers⟩

theorem extentFrom_any {n : Nat} : From s i (Parser.extentFrom n) fun j _ => j = i := by
  rintro p rfl hmemo
  unfold Parser.extentFrom
  split
  · exact ⟨hmemo, rfl⟩
  · exact ⟨hmemo, rfl⟩

theorem located_any {m : Parser (Extent → α)}
    (h : From s i m fun j build => ∀ x, R j (build x)) : From s i (Parser.located m) R := by
  refine position.bind fun j n hn => ?_
  obtain ⟨rfl, rfl⟩ := hn
  refine peek.bind fun j t ht => ?_
  obtain ⟨rfl, _⟩ := ht
  refine h.bind fun k build hbuild => ?_
  refine extentFrom_any.bind fun l x hx => ?_
  obtain rfl := hx
  exact .pure (hbuild x)

theorem located {m : Parser (Extent → α)} (hs : s.Sound)
    (h : From s i m fun j build => Took s i j [] ∧ ∀ x, Covers s i j x → R j (build x)) :
    From s i (located m) R := by
  refine position.bind fun j n hn => ?_
  obtain ⟨rfl, rfl⟩ := hn
  refine peek.bind fun j t ht => ?_
  obtain ⟨rfl, _⟩ := ht
  refine h.bind fun k build hbuild => ?_
  refine (extentFrom hbuild.1 hs).bind fun l x hx => ?_
  obtain ⟨rfl, hx⟩ := hx
  exact .pure (hbuild.2 x hx)

end From
/-! ## Parsers that take expressions -/

/-- A parser takes the expressions that its results have, wherever it begins. -/
def Takes {α : Type} (s : Setting) (parts : α → List Expr) (m : Parser α) : Prop :=
  ∀ i, From s i m fun j a => Took s i j (parts a)

/-- A parser of expressions takes them. -/
def TakesOne (s : Setting) (m : Parser Expr) : Prop := Takes s (fun e => [e]) m

/-- A parser takes what holds no expressions. -/
def TakesBare {α : Type} (s : Setting) (m : Parser α) : Prop := Takes s (fun _ => []) m

variable {α β : Type} {s : Setting} {i j : Nat} {es : List Expr} {parts : α → List Expr}
  {m : Parser α}

theorem Took.next (h : Took s i j es) (hs : s.Sound) (hm : Takes s parts m) :
    From s j m fun k a => Took s i k (es ++ parts a) :=
  (hm j).mono fun _ _ ha => h.append ha.toPassed hs

theorem Took.next_bare (h : Took s i j es) (hs : s.Sound) (hm : TakesBare s m) :
    From s j m fun k _ => Took s i k es :=
  (h.next hs hm).mono fun _ _ ha => List.append_nil es ▸ ha

theorem Took.skip (h : Took s i j es) (hs : s.Sound)
    (hm : From s j m fun k a => Passed s j k (parts a)) :
    From s j m fun k a => Took s i k (es ++ parts a) :=
  hm.mono fun _ _ ha => h.append ha hs

theorem Took.skip_bare (h : Took s i j es) (hs : s.Sound)
    (hm : From s j m fun k _ => Passed s j k []) : From s j m fun k _ => Took s i k es :=
  (h.skip hs hm).mono fun _ _ ha => List.append_nil es ▸ ha

theorem Passed.next (h : Passed s i j es) (hs : s.Sound) (hm : Takes s parts m) :
    From s j m fun k a => Took s i k (es ++ parts a) :=
  (hm j).mono fun _ _ ha => h.took ha hs

theorem Passed.next_bare (h : Passed s i j es) (hs : s.Sound) (hm : TakesBare s m) :
    From s j m fun k _ => Took s i k es :=
  (h.next hs hm).mono fun _ _ ha => List.append_nil es ▸ ha

theorem Took.wrap_held (h : Took s i j es) (hs : s.Sound) {build : Extent → Expr}
    (hbuild : ∀ x, (build x).extent = x ∧ Held s i j (build x).children ∧ (build x).FittedIn s) :
    Took s i j [] ∧ ∀ x, Covers s i j x → Took s i j [build x] := by
  refine ⟨h.bare, fun x hx => ?_⟩
  obtain ⟨hextent, hchildren, hfitted⟩ := hbuild x
  exact h.enclose hs (hextent.symm ▸ hx) hchildren hfitted

theorem Took.wrap (h : Took s i j es) (hs : s.Sound) {build : Extent → Expr}
    (hbuild : ∀ x, (build x).extent = x ∧ (build x).children.Subperm es ∧ (build x).FittedIn s) :
    Took s i j [] ∧ ∀ x, Covers s i j x → Took s i j [build x] :=
  h.wrap_held hs fun x => ⟨(hbuild x).1, h.toHeld.subperm (hbuild x).2.1, (hbuild x).2.2⟩

theorem TakesBare.optional (h : TakesBare s m) :
    From s i (Parser.optional m) fun j _ => Passed s i j [] :=
  .optional ((h i).mono fun _ _ ha => ha.toPassed) .nil

namespace Takes

theorem bare (h : Takes s parts m) : TakesBare s m := fun i => (h i).mono fun _ _ ha => ha.bare

theorem symbol {text : String} : TakesBare s (symbol text) := fun _ => .symbol

theorem name : TakesBare s anyName := fun _ => .name

theorem softKeyword {text : String} : TakesBare s (softKeyword text) := fun _ => .softKeyword

theorem orElse {n : Parser α} (hm : Takes s parts m) (hn : Takes s parts n) :
    Takes s parts (m <|> n) :=
  fun i => .orElse (hm i) (hn i)

theorem optional (h : Takes s parts m) :
    From s i (optional m) fun j o => Passed s i j (o.elim [] parts) :=
  .optional ((h i).mono fun _ _ ha => ha.toPassed) .nil

theorem optional_flat {m : Parser (List α)} (h : Takes s (fun as => as.flatMap parts) m) :
    From s i (Parser.optional m) fun j o => Passed s i j ((o.getD []).flatMap parts) :=
  .optional ((h i).mono fun _ _ ha => ha.toPassed) .nil

theorem optional_list {m : Parser (List Expr)} (h : Takes s id m) :
    From s i (Parser.optional m) fun j o => Passed s i j (o.getD []) :=
  .optional ((h i).mono fun _ _ ha => ha.toPassed) .nil

theorem many (hs : s.Sound) (h : Takes s parts m) :
    From s i (many m) fun j as => Passed s i j (as.flatMap parts) := by
  refine .many .nil fun j as has => (h j).mono fun k a ha => ?_
  rw [List.flatMap_append, List.flatMap_singleton]
  exact has.append ha.toPassed hs

theorem many1 (hs : s.Sound) (h : Takes s parts m) :
    Takes s (fun as => as.flatMap parts) (many1 m) := by
  intro i
  refine (h i).bind fun j a ha => ?_
  refine (h.many hs).bind fun k as has => ?_
  exact .pure (ha.append has hs)

theorem after {head : Parser β} (h : Takes s parts m) (hs : s.Sound) (hhead : TakesBare s head) :
    Takes s parts (do let _ ← head; m) :=
  fun i => (hhead i).bind fun _ _ hj => hj.next hs h

theorem sepBy1 {separator : Parser β} (hs : s.Sound) (h : Takes s parts m)
    (hseparator : TakesBare s separator) :
    Takes s (fun as => as.flatMap parts) (sepBy1 m separator) := by
  intro i
  refine (h i).bind fun j a ha => ?_
  refine ((h.after hs hseparator).many hs).bind fun k as has => ?_
  exact .pure (ha.append has hs)

end Takes

namespace TakesOne

variable {m : Parser Expr}

theorem optional (h : TakesOne s m) : From s i (optional m) fun j o => Passed s i j o.toList :=
  .optional ((h i).mono fun _ _ ha => ha.toPassed) .nil

theorem many (hs : s.Sound) (h : TakesOne s m) :
    From s i (many m) fun j es => Passed s i j es :=
  (Takes.many hs h).mono fun _ es hes => List.flatMap_singleton' es ▸ hes

theorem many1 (hs : s.Sound) (h : TakesOne s m) : Takes s id (many1 m) :=
  fun i => (Takes.many1 hs h i).mono fun _ es hes => List.flatMap_singleton' es ▸ hes

theorem after {head : Parser β} (h : TakesOne s m) (hs : s.Sound) (hhead : TakesBare s head) :
    TakesOne s (do let _ ← head; m) :=
  Takes.after h hs hhead

theorem sepBy1 {separator : Parser β} (hs : s.Sound) (h : TakesOne s m)
    (hseparator : TakesBare s separator) : Takes s id (sepBy1 m separator) :=
  fun i => (Takes.sepBy1 hs h hseparator i).mono fun _ es hes => List.flatMap_singleton' es ▸ hes

theorem remember {rule : Rule} (h : TakesOne s m) : TakesOne s (remember rule m) :=
  fun i => .remember (h i)

end TakesOne

/-! ## Parsers that hold expressions -/

/-- A parser holds the expressions that its results have. It may begin with a boundary. -/
def Holds {α : Type} (s : Setting) (parts : α → List Expr) (m : Parser α) : Prop :=
  ∀ i, From s i m fun j a => Held s i j (parts a)

/-- A parser moves on and holds no expressions. -/
def Moves {α : Type} (s : Setting) (m : Parser α) : Prop := Holds s (fun _ => []) m

theorem Takes.holds (h : Takes s parts m) : Holds s parts m :=
  fun i => (h i).mono fun _ _ ha => ha.toHeld

theorem Takes.moves (h : Takes s parts m) : Moves s m := h.bare.holds

theorem Held.next (h : Held s i j es) (hs : s.Sound) (hm : Holds s parts m) :
    From s j m fun k a => Held s i k (es ++ parts a) :=
  (hm j).mono fun _ _ ha => h.append ha hs

theorem Held.next_bare (h : Held s i j es) (hs : s.Sound) (hm : Moves s m) :
    From s j m fun k _ => Held s i k es :=
  (h.next hs hm).mono fun _ _ ha => List.append_nil es ▸ ha

namespace Holds

theorem bare (h : Holds s parts m) : Moves s m :=
  fun i => (h i).mono fun _ _ ha => ha.subperm List.nil_subperm

theorem orElse {n : Parser α} (hm : Holds s parts m) (hn : Holds s parts n) :
    Holds s parts (m <|> n) :=
  fun i => .orElse (hm i) (hn i)

theorem many (hs : s.Sound) (h : Holds s parts m) :
    Holds s (fun as => as.flatMap parts) (Parser.many m) := by
  refine fun i => .many .nil fun j as has => (h j).mono fun k a ha => ?_
  simpa only [List.flatMap_append, List.flatMap_singleton] using has.append ha hs

theorem many1 (hs : s.Sound) (h : Holds s parts m) :
    Holds s (fun as => as.flatMap parts) (Parser.many1 m) := by
  refine fun i => (h i).bind fun j a ha => ?_
  exact (ha.next hs (h.many hs)).bind fun k as has => .pure has

theorem after {head : Parser β} (h : Holds s parts m) (hs : s.Sound) (hhead : Moves s head) :
    Holds s parts (do let _ ← head; m) :=
  fun i => (hhead i).bind fun _ _ hj => hj.next hs h

theorem sepBy1 {separator : Parser β} (hs : s.Sound) (h : Holds s parts m)
    (hseparator : Moves s separator) :
    Holds s (fun as => as.flatMap parts) (Parser.sepBy1 m separator) := by
  refine fun i => (h i).bind fun j a ha => ?_
  exact (ha.next hs ((h.after hs hseparator).many hs)).bind fun k as has => .pure has

end Holds

namespace Moves

variable {m : Parser α} {n : Parser β}

theorem boundary {k : TokenKind} : Moves s (kind k) := fun _ => .boundary

theorem bind (hm : Moves s m) (hs : s.Sound) {k : α → Parser β} (hk : ∀ a, Moves s (k a)) :
    Moves s (m >>= k) :=
  fun i => (hm i).bind fun _ a hj => hj.next_bare hs (hk a)

theorem orElse {n : Parser α} (hm : Moves s m) (hn : Moves s n) : Moves s (m <|> n) :=
  Holds.orElse hm hn

theorem done {a : α} : Moves s (Pure.pure a : Parser α) := fun _ => .pure .nil

theorem notAhead (h : Moves s m) : Moves s (Parser.notAhead m) :=
  fun i => (h i).notAhead.mono fun _ _ hj => hj ▸ .nil

theorem optional (h : Moves s m) : Moves s (Parser.optional m) := fun i => .optional (h i) .nil

theorem many (hs : s.Sound) (h : Moves s m) : Moves s (Parser.many m) := (Holds.many hs h).bare

theorem many1 (hs : s.Sound) (h : Moves s m) : Moves s (Parser.many1 m) := (Holds.many1 hs h).bare

theorem sepBy1 (hs : s.Sound) (h : Moves s m) (hn : Moves s n) : Moves s (Parser.sepBy1 m n) :=
  (Holds.sepBy1 hs h hn).bare

theorem peek : Moves s Parser.peek := fun _ => From.peek.mono fun _ _ hj => hj.1 ▸ .nil

end Moves

/-! ## Parsers of statements -/

/-- A parser holds the expressions of the statement that it gives. -/
def HoldsStmt (s : Setting) (m : Parser Stmt) : Prop :=
  ∀ i, From s i m fun j t => Houses s i j [t]

/-- A parser holds the expressions of the statements that it gives. -/
def HoldsBlock (s : Setting) (m : Parser (List Stmt)) : Prop :=
  ∀ i, From s i m fun j ss => Houses s i j ss

theorem Held.stmt {t : Stmt} (h : Held s i j t.expressions) (hproper : t.isProper = true) :
    Houses s i j [t] := by
  constructor
  · rwa [Stmt.expressions_of_all_cons, Stmt.expressions_of_all_nil, List.append_nil]
  · rw [Stmt.are_proper_cons, hproper]
    rfl

theorem Held.evaluated (h : Held s i j es) : Houses s i j (es.map Stmt.ofExpr) := by
  constructor
  · rwa [Stmt.expressions_of_all_map]
  · exact Stmt.are_proper_map es

namespace Houses

variable {k : Nat} {ss ts : List Stmt}

theorem nil : Houses s i i [] := ⟨.nil, rfl⟩

theorem append (h : Houses s i j ss) (ht : Houses s j k ts) (hs : s.Sound) :
    Houses s i k (ss ++ ts) := by
  constructor
  · rw [Stmt.expressions_of_all_append]
    exact h.toHeld.append ht.toHeld hs
  · rw [Stmt.are_proper_append, h.proper, ht.proper]
    rfl

theorem compound (h : Houses s i j ss) (x : Extent) (kind : StatementKind) :
    Houses s i j [.compound x kind ss] := by
  refine Held.stmt ?_ ?_
  · rw [Stmt.expressions_compound]
    exact h.toHeld
  · rw [Stmt.is_proper_compound]
    exact h.proper

theorem next {m : Parser (List Stmt)} (h : Houses s i j ss) (hs : s.Sound) (hm : HoldsBlock s m) :
    From s j m fun k ts => Houses s i k (ss ++ ts) :=
  (hm j).mono fun _ _ ht => h.append ht hs

theorem next_bare (h : Houses s i j ss) (hs : s.Sound) (hm : Moves s m) :
    From s j m fun k _ => Houses s i k ss :=
  (hm j).mono fun _ _ ht => List.append_nil ss ▸ h.append ⟨ht, rfl⟩ hs

theorem many {m : Parser (List Stmt)} (h : Houses s i j ss) (hs : s.Sound) (hm : HoldsBlock s m) :
    From s j (Parser.many m) fun k sss => Houses s i k (ss ++ sss.flatten) := by
  refine .many ((List.append_nil ss).symm ▸ h) fun k sss hsss => (hsss.next hs hm).mono ?_
  intro l ts hts
  rwa [List.flatten_append, List.flatten_singleton, ← List.append_assoc]

theorem next_expr {m : Parser Expr} (h : Houses s i j ss) (hs : s.Sound) (hm : TakesOne s m) :
    From s j m fun k e => Houses s i k (ss ++ [.ofExpr e]) :=
  (hm j).mono fun _ _ he => h.append he.toHeld.evaluated hs

end Houses

namespace HoldsBlock

variable {m n : Parser (List Stmt)}

theorem orElse (hm : HoldsBlock s m) (hn : HoldsBlock s n) : HoldsBlock s (m <|> n) :=
  fun i => .orElse (hm i) (hn i)

theorem optional (h : HoldsBlock s m) :
    From s i (Parser.optional m) fun j o => Houses s i j (o.getD []) :=
  .optional (h i) .nil

theorem many1 (hs : s.Sound) (h : HoldsBlock s m) :
    From s i (Parser.many1 m) fun j sss => Houses s i j sss.flatten :=
  (h i).bind fun _ _ hss => (hss.many hs h).bind fun _ _ hsss => .pure hsss

theorem sepBy1 {β : Type} {separator : Parser β} (hs : s.Sound) (h : HoldsBlock s m)
    (hseparator : Moves s separator) :
    From s i (Parser.sepBy1 m separator) fun j sss => Houses s i j sss.flatten := by
  have hnext : HoldsBlock s (do let _ ← separator; m) := by
    refine fun i => (hseparator i).bind fun j _ hj => ?_
    have hbare : Houses s i j [] := ⟨hj, rfl⟩
    exact hbare.next hs h
  exact (h i).bind fun j ss hss => (hss.many hs hnext).bind fun k sss hsss => .pure hsss

end HoldsBlock
end BacktestAudit.Syntax
