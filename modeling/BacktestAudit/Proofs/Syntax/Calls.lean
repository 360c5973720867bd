import BacktestAudit.Proofs.Syntax.Seen

/-!
The calls in an expression and where they are. Two of them may begin together, as in a chain of
methods, but each call ends behind what it is made on, so no two have the same span.
-/
namespace BacktestAudit.Syntax.Expr
set_option autoImplicit false

mutual

/-- The calls in an expression, the receiver and the arguments of a call before the call. -/
def calls : Expr → List Expr
  | name .. | constant .. => []
  | member _ v _ | starred _ v | keyword _ _ v | unary _ _ v => calls v
  | subscript _ v i => calls v ++ calls i
  | binary _ _ l r => calls l ++ calls r
  | call e f as => calls f ++ callsOfAll as ++ [call e f as]
  | tuple _ es | list _ es | set _ es | composite _ _ es => callsOfAll es
  | dict _ ks vs => callsOfAll ks ++ callsOfAll vs

def callsOfAll : List Expr → List Expr
  | [] => []
  | e :: es => calls e ++ callsOfAll es

end

theorem calls_of_all_eq (es : List Expr) : callsOfAll es = es.flatMap calls := by
  induction es with
  | nil => rfl
  | cons e es ih => rw [callsOfAll, ih, List.flatMap_cons]

def ownCall : Expr → List Expr
  | call e f as => [call e f as]
  | _ => []

theorem mem_own_call {e c : Expr} (h : c ∈ e.ownCall) : c = e ∧ ∃ x f as, e = call x f as := by
  cases e with
  | call x f as => exact ⟨List.mem_singleton.mp h, x, f, as, rfl⟩
  | _ => cases h

theorem calls_eq (e : Expr) : e.calls = e.children.flatMap calls ++ e.ownCall := by
  cases e <;> simp [calls, children, ownCall, calls_of_all_eq]

/-! ## Where calls are -/

/-- An expression that stands in another, or is the other. -/
inductive Occurs (d : Expr) : Expr → Prop
  | here : Occurs d d
  | inside {c e : Expr} : c ∈ e.children → Occurs d c → Occurs d e

theorem Occurs.trans {c d e : Expr} (h : c.Occurs d) (h' : d.Occurs e) : c.Occurs e := by
  induction h' with
  | here => exact h
  | inside hc _ ih => exact .inside hc ih

theorem Placed.of_occurs {d e : Expr} (h : e.Placed) (hd : d.Occurs e) :
    d.Placed ∧ e.extent.start ≤ d.extent.start ∧ d.extent.stop ≤ e.extent.stop := by
  induction hd with
  | here => exact ⟨h, Nat.le_refl _, Nat.le_refl _⟩
  | @inside c e hc _ ih =>
    obtain ⟨hplaced, hstart, hstop⟩ := ih (h.child hc)
    have hinside := h.inside hc
    exact ⟨hplaced, by omega, by omega⟩

theorem Shown.of_occurs {text : String} {d e : Expr} (h : e.Shown text) (hd : d.Occurs e) :
    d.Shown text := by
  induction hd with
  | here => exact h
  | inside hc _ ih => exact ih (h.child hc)

theorem Placed.occurs_of_calls {e c : Expr} (h : e.Placed) (hc : c ∈ e.calls) : c.Occurs e := by
  induction h with
  | @intro e _ _ _ _ _ ih =>
    rw [calls_eq] at hc
    rcases List.mem_append.mp hc with hc | hc
    · obtain ⟨d, hd, hc⟩ := List.mem_flatMap.mp hc
      exact .inside hd (ih d hd hc)
    · obtain ⟨rfl, -⟩ := mem_own_call hc
      exact .here

theorem Placed.call_placed {e c : Expr} (h : e.Placed) (hc : c ∈ e.calls) :
    c.Placed ∧ e.extent.start ≤ c.extent.start ∧ c.extent.stop ≤ e.extent.stop :=
  h.of_occurs (h.occurs_of_calls hc)

theorem span_ne_of_start {a b : Expr} (h : a.extent.start ≠ b.extent.start) :
    a.extent.span ≠ b.extent.span :=
  fun heq => h (Int.ofNat_inj.mp (congrArg Source.Span.start heq))

theorem span_ne_of_stop {a b : Expr} (h : a.extent.stop ≠ b.extent.stop) :
    a.extent.span ≠ b.extent.span :=
  fun heq => h (Int.ofNat_inj.mp (congrArg Source.Span.stop heq))

theorem Apart.call_span_ne {a b c d : Expr} (h : Apart a b) (ha : a.Placed) (hb : b.Placed)
    (hc : c ∈ a.calls) (hd : d ∈ b.calls) : c.extent.span ≠ d.extent.span := by
  obtain ⟨hc, hstart, hstop⟩ := ha.call_placed hc
  obtain ⟨hd, hstart', hstop'⟩ := hb.call_placed hd
  have hlt := hc.start_lt
  have hlt' := hd.start_lt
  refine span_ne_of_start fun heq => ?_
  rcases h with h | h
  · omega
  · omega

theorem Placed.call_span_ne {x : Source.Extent} {f c d : Expr} {as : List Expr}
    (h : (call x f as).Placed) (hd : d ∈ f :: as) (hc : c ∈ d.calls) :
    c.extent.span ≠ (call x f as).extent.span := by
  obtain ⟨_, hstart, hstop⟩ := (h.child hd).call_placed hc
  rcases List.mem_cons.mp hd with rfl | hmem
  · have hbracket : d.extent.stop < x.stop := h.fitted.1
    refine span_ne_of_stop fun heq => ?_
    change c.extent.stop = x.stop at heq
    omega
  · -- An argument with the span of the call would hold what is called.
    have hapart := (List.pairwise_cons.mp h.apart).1 d hmem
    have hfirst : f ∈ (call x f as).children := List.mem_cons_self ..
    have hfunc := h.inside hfirst
    have hlt := (h.child hfirst).start_lt
    intro heq
    have hbegin := Int.ofNat_inj.mp (congrArg Source.Span.start heq)
    have hend := Int.ofNat_inj.mp (congrArg Source.Span.stop heq)
    rcases hapart with hapart | hapart
    · omega
    · omega

theorem call_spans_nodup_of_apart {es : List Expr} (hplaced : ∀ e ∈ es, e.Placed)
    (hapart : es.Pairwise Apart) (heach : ∀ e ∈ es, (e.calls.map (·.extent.span)).Nodup) :
    ((es.flatMap calls).map (·.extent.span)).Nodup := by
  rw [List.map_flatMap]
  refine List.pairwise_flatMap.mpr ⟨heach, hapart.imp_of_mem fun ha hb hab => ?_⟩
  intro x hx y hy
  obtain ⟨c, hc, rfl⟩ := List.mem_map.mp hx
  obtain ⟨d, hd, rfl⟩ := List.mem_map.mp hy
  exact hab.call_span_ne (hplaced _ ha) (hplaced _ hb) hc hd

theorem Placed.call_spans_nodup {e : Expr} (h : e.Placed) : (e.calls.map (·.extent.span)).Nodup := by
  -- On the parts: they are apart from each other, and a call differs from the calls in its parts.
  induction h with
  | @intro e hlt hinside hapart hchildren hfitted ih =>
    have hparts := call_spans_nodup_of_apart hchildren hapart ih
    have hplaced : e.Placed := .intro hlt hinside hapart hchildren hfitted
    rw [calls_eq, List.map_append]
    cases e with
    | call x f as =>
      refine List.nodup_append.mpr ⟨hparts, List.pairwise_singleton .., fun s hs t ht => ?_⟩
      obtain ⟨c, hc, rfl⟩ := List.mem_map.mp hs
      obtain ⟨d, hd, hc⟩ := List.mem_flatMap.mp hc
      exact List.mem_singleton.mp ht ▸ hplaced.call_span_ne hd hc
    | _ => simpa [ownCall] using hparts

theorem call_spans_nodup {es : List Expr} (hplaced : ∀ e ∈ es, e.Placed)
    (hapart : es.Pairwise Apart) : ((es.flatMap calls).map (·.extent.span)).Nodup :=
  call_spans_nodup_of_apart hplaced hapart fun e he => (hplaced e he).call_spans_nodup

end BacktestAudit.Syntax.Expr
