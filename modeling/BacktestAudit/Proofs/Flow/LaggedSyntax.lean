import BacktestAudit.Proofs.Flow.Lagging
import BacktestAudit.Proofs.Flow.Scan

/-!
What lagging reads leaves as it is: literals, the steps of positions, the amounts of shifts, and the
names of what is called. It makes nothing a dataset, a column or a list of keys that was none.
-/
namespace BacktestAudit.Flow
open BacktestAudit.Syntax BacktestAudit.Source
set_option autoImplicit false

variable {imported : List String}

/-! ## What stays as it is -/

/-- Expressions that tell nothing before they are evaluated: names, members, subscripts and calls. -/
def isDynamic : Expr → Bool
  | .name .. | .member .. | .subscript .. | .call .. => true
  | _ => false

theorem dynamic_lag (w : Places) {e : Expr} (h : isDynamic e = true) :
    isDynamic (lagReads imported w e) = true := by
  cases e with
  | name e id role => rcases lag_name_cases w e id role with h | h <;> rw [h] <;> rfl
  | member e value attr =>
    obtain ⟨v, _, h | h⟩ := lag_member_cases w e value attr <;> rw [h] <;> rfl
  | subscript e value index =>
    obtain ⟨v, i, h | h⟩ := lag_subscript_cases w e value index <;> rw [h] <;> rfl
  | call e func arguments =>
    obtain ⟨f, _, h⟩ := lag_call_cases w e func arguments
    rw [h]
    rfl
  | _ => cases h

/-- What tells nothing of dynamic expressions, and nothing new of the others, tells nothing new of
an expression with lagged reads. -/
theorem lag_keeps {β : Type} {f : Expr → β} (d : β) (w : Places)
    (hdynamic : ∀ e, isDynamic e = true → f e = d)
    (hstatic : ∀ e, isDynamic e = false → f (lagReads imported w e) = f e) (e : Expr) :
    f (lagReads imported w e) = f e := by
  cases h : isDynamic e with
  | true => rw [hdynamic _ (dynamic_lag w h), hdynamic e h]
  | false => exact hstatic e h

theorem number_lag (w : Places) (e : Expr) : (lagReads imported w e).number = e.number := by
  refine lag_keeps (.error .dynamic) w (fun e h => ?_) (fun e h => ?_) e
  · cases e <;> first | rfl | cases h
  · cases e <;> first | rfl | cases h

theorem signed_number_lag (w : Places) (e : Expr) :
    (lagReads imported w e).signedNumber = e.signedNumber := by
  refine lag_keeps (.error .dynamic) w (fun e h => ?_) (fun e h => ?_) e
  · cases e <;> first | rfl | cases h
  · cases e with
    | unary e op value =>
      cases op with
      | plus => exact number_lag _ value
      | minus => exact congrArg (·.map Expr.negate) (number_lag _ value)
      | _ => rfl
    | _ => first | rfl | cases h

theorem text_constant_lag (w : Places) (e : Expr) :
    (lagReads imported w e).textConstant? = e.textConstant? := by
  refine lag_keeps none w (fun e h => ?_) (fun e h => ?_) e
  · cases e <;> first | rfl | cases h
  · cases e <;> first | rfl | cases h

theorem is_keyword_lag (w : Places) (e : Expr) :
    (lagReads imported w e).isKeyword = e.isKeyword := by
  refine lag_keeps false w (fun e h => ?_) (fun e h => ?_) e
  · cases e <;> first | rfl | cases h
  · cases e <;> first | rfl | cases h

/-! ## Literals stay -/

theorem literal_call (e : Extent) {func : Expr} {arguments : List Expr}
    (h : (∀ at_ id role, func ≠ .name at_ id role) ∨ arguments ≠ []) :
    (Expr.call e func arguments).literal = .error .dynamic := by
  unfold Expr.literal
  split <;> simp_all

theorem lag_ne_name (w : Places) {f : Expr} (h : ∀ at_ id role, f ≠ .name at_ id role)
    (at_ : Extent) (id : String) (role : NameRole) : lagReads imported w f ≠ .name at_ id role := by
  cases f with
  | name e id' role' => exact absurd rfl (h e id' role')
  | member e value attr =>
    obtain ⟨v, _, h | h⟩ := @lag_member_cases imported w e value attr <;> rw [h] <;>
      nofun
  | subscript e value index =>
    obtain ⟨v, i, h | h⟩ := @lag_subscript_cases imported w e value index <;> rw [h] <;>
      nofun
  | call e func arguments =>
    obtain ⟨f, _, h⟩ := @lag_call_cases imported w e func arguments
    rw [h]
    nofun
  | _ => nofun

theorem CalleeLagged.literal {w : Places} {f f' : Expr} (h : CalleeLagged imported w f f')
    (e : Extent) (w' : Places) (arguments : List Expr) :
    (Expr.call e f' (lagAll imported w' 1 arguments)).literal =
      (Expr.call e f arguments).literal := by
  cases h with
  | method at_ value attr =>
    rw [literal_call e (.inl fun _ _ _ => Expr.noConfusion),
      literal_call e (.inl fun _ _ _ => Expr.noConfusion)]
  | function at_ id role =>
    cases arguments with
    | nil => rfl
    | cons a as =>
      rw [lagAll, literal_call e (.inr (List.cons_ne_nil _ _)),
        literal_call e (.inr (List.cons_ne_nil _ _))]
  | value _ hmember hname =>
    rw [literal_call e (.inl hname), literal_call e (.inl (lag_ne_name w hname))]

mutual

theorem literal_lag (w : Places) (e : Expr) : (lagReads imported w e).literal = e.literal := by
  cases e with
  | name e id role => rcases lag_name_cases w e id role with h | h <;> rw [h] <;> rfl
  | member e value attr => obtain ⟨v, _, h | h⟩ := lag_member_cases w e value attr <;> rw [h] <;> rfl
  | subscript e value index =>
    obtain ⟨v, i, h | h⟩ := lag_subscript_cases w e value index <;> rw [h] <;> rfl
  | call e func arguments =>
    obtain ⟨f, hf, h⟩ := lag_call_cases w e func arguments
    rw [h]
    exact hf.literal e w arguments
  | unary e op value => exact signed_number_lag w (.unary e op value)
  | binary e op l r =>
    rw [lagReads, Expr.literal, Expr.literal, signed_number_lag, number_lag]
  | tuple e es => rw [lagReads, Expr.literal, Expr.literal, literals_lag w 0 es]
  | list e es => rw [lagReads, Expr.literal, Expr.literal, literals_lag w 0 es]
  | set e es => rw [lagReads, Expr.literal, Expr.literal, literals_lag w 0 es]
  | dict e ks vs =>
    rw [lagReads, Expr.literal, Expr.literal, literals_lag w 0 ks, literals_lag w ks.length vs]
  | _ => rfl

theorem literals_lag (w : Places) (first : Nat) (es : List Expr) :
    Expr.literals (lagAll imported w first es) = Expr.literals es := by
  cases es with
  | nil => rfl
  | cons e es =>
    rw [lagAll, Expr.literals, Expr.literals, literal_lag (w.below first) e,
      literals_lag w (first + 1) es]

end

theorem literal_lag? (w : Places) (e : Expr) : (lagReads imported w e).literal? = e.literal? := by
  rw [Expr.literal?, Expr.literal?, literal_lag]

theorem leaves_range_lag (w : Places) (e : Expr) :
    (lagReads imported w e).leavesRange = e.leavesRange := by
  unfold Expr.leavesRange
  rw [literal_lag]

/-! ## Steps ahead stay -/

theorem position_lag (w : Places) (e : Expr) :
    ∃ w', positionOf (lagReads imported w e) = lagReads imported w' (positionOf e) := by
  cases h : isDynamic e with
  | true =>
    have hpos : ∀ e, isDynamic e = true → positionOf e = e := by
      intro e h
      cases e <;> first | rfl | cases h
    exact ⟨w, by rw [hpos _ (dynamic_lag w h), hpos e h]⟩
  | false =>
    cases e with
    | tuple e es =>
      cases es with
      | nil => exact ⟨w, rfl⟩
      | cons e es => exact ⟨w.below 0, rfl⟩
    | _ => first | exact ⟨w, rfl⟩ | cases h

theorem forward_step_of_position {w : Places} {index index' : Expr}
    (h : positionOf index' = lagReads imported w (positionOf index)) :
    forwardStep? index' = forwardStep? index := by
  have hstep : ∀ i : Expr, forwardStep? i = forwardStep? (.tuple index.extent [positionOf i]) :=
    fun _ => rfl
  rw [hstep index', hstep index, h]
  refine lag_keeps (f := fun e => forwardStep? (.tuple index.extent [e])) none w
    (fun e h => ?_) (fun e h => ?_) (positionOf index)
  · cases e <;> first | rfl | cases h
  · cases e with
    | binary e op l r => cases op <;> simp only [lagReads, forwardStep?, positionOf, literal_lag?]
    | _ => first | rfl | cases h

theorem position_leaves_range_of_position {w : Places} {index index' : Expr}
    (h : positionOf index' = lagReads imported w (positionOf index)) :
    positionLeavesRange index' = positionLeavesRange index := by
  have hrange : ∀ i : Expr,
      positionLeavesRange i = positionLeavesRange (.tuple index.extent [positionOf i]) :=
    fun _ => rfl
  rw [hrange index', hrange index, h]
  refine lag_keeps (f := fun e => positionLeavesRange (.tuple index.extent [e])) false w
    (fun e h => ?_) (fun e h => ?_) (positionOf index)
  · cases e <;> first | rfl | cases h
  · cases e with
    | binary e op l r =>
      simp only [lagReads, positionLeavesRange, positionOf, leaves_range_lag]
    | _ => first | rfl | cases h

theorem forward_trace_lag (w : Places) (e : Extent) (index : Expr) :
    forwardTrace e (lagReads imported w index) = forwardTrace e index := by
  obtain ⟨w', hpos⟩ := @position_lag imported w index
  rw [forwardTrace, forwardTrace, forward_step_of_position hpos,
    position_leaves_range_of_position hpos]

theorem forward_trace_rows_lag (w : Places) (e at_ : Extent) (parts : List Expr) :
    forwardTrace e (.tuple at_ (lagInit imported w 0 parts)) =
      forwardTrace e (.tuple at_ parts) := by
  match parts with
  | [] => rfl
  | [p] => rfl
  | p :: q :: parts =>
    have hpos : positionOf (.tuple at_ (lagInit imported w 0 (p :: q :: parts))) =
        lagReads imported (w.below 0) (positionOf (.tuple at_ (p :: q :: parts))) := rfl
    rw [forwardTrace, forwardTrace, forward_step_of_position hpos,
      position_leaves_range_of_position hpos]

/-! ## Arguments stay -/

/-- An argument passed by name is still passed by that name, one in place still in place. -/
theorem keyword_lag (w : Places) (a : Expr) :
    (∃ e name v, a = .keyword e name v ∧
      lagReads imported w a = .keyword e name (lagReads imported (w.below 0) v)) ∨
      a.isKeyword = false ∧ (lagReads imported w a).isKeyword = false := by
  cases h : a.isKeyword with
  | false => exact .inr ⟨rfl, (is_keyword_lag w a).trans h⟩
  | true =>
    cases a with
    | keyword e name v => exact .inl ⟨e, name, v, rfl, rfl⟩
    | _ => cases h

/-- What is folded over the arguments passed by name alone is related to what is folded over them
with lagged reads, when every one of them keeps the relation. -/
theorem fold_keywords_lag {β : Type} {R : β → β → Prop} {step : β → Expr → β} (w : Places)
    (first : Nat) (arguments : List Expr) {acc' acc : β}
    (hkeyword : ∀ acc' acc w' e name v, R acc' acc →
      R (step acc' (.keyword e name (lagReads imported w' v))) (step acc (.keyword e name v)))
    (hinPlace : ∀ acc a, a.isKeyword = false → step acc a = acc) (hacc : R acc' acc) :
    R ((lagAll imported w first arguments).foldl step acc') (arguments.foldl step acc) := by
  induction arguments generalizing first acc' acc with
  | nil => exact hacc
  | cons a as ih =>
    rw [lagAll, List.foldl_cons, List.foldl_cons]
    apply ih
    rcases @keyword_lag imported (w.below first) a with
      ⟨e, name, v, rfl, h⟩ | ⟨h, h'⟩
    · rw [h]
      exact hkeyword _ _ _ e name v hacc
    · rw [hinPlace acc a h, hinPlace acc' _ h']
      exact hacc

theorem literal_keywords_lag (w : Places) (first : Nat) (arguments : List Expr) :
    literalKeywords (lagAll imported w first arguments) = literalKeywords arguments := by
  refine fold_keywords_lag (R := Eq) w first arguments ?_ ?_ rfl
  · rintro acc _ w' e name v rfl
    cases name with
    | none => rfl
    | some name => simp only [literal_lag?]
  · intro acc a h
    cases a <;> first | rfl | cases h

theorem arguments_leave_range_lag (w : Places) (first : Nat) (arguments : List Expr) :
    (lagAll imported w first arguments).any argumentLeavesRange =
      arguments.any argumentLeavesRange := by
  induction arguments generalizing first with
  | nil => rfl
  | cons a as ih =>
    have hinPlace : ∀ a : Expr, a.isKeyword = false → argumentLeavesRange a = a.leavesRange := by
      intro a h
      cases a <;> first | rfl | cases h
    rw [lagAll, List.any_cons, List.any_cons, ih]
    congr 1
    rcases @keyword_lag imported (w.below first) a with
      ⟨e, name, v, rfl, h⟩ | ⟨h, h'⟩
    · rw [h]
      cases name with
      | none => rfl
      | some name => exact leaves_range_lag _ v
    · rw [hinPlace a h, hinPlace _ h', leaves_range_lag]

theorem positional_head_lag (w : Places) (first : Nat) (arguments : List Expr) :
    (Expr.positional (lagAll imported w first arguments)).head?.map Expr.literal? =
      (Expr.positional arguments).head?.map Expr.literal? := by
  induction arguments generalizing first with
  | nil => rfl
  | cons a as ih =>
    have hkeyword := @is_keyword_lag imported (w.below first) a
    cases h : a.isKeyword with
    | true => simpa [Expr.positional, lagAll, hkeyword, h] using ih (first + 1)
    | false => simp [Expr.positional, lagAll, hkeyword, h, literal_lag?]

theorem shift_argument_lag (w : Places) (first : Nat) (arguments : List Expr) :
    (shiftArgument? (lagAll imported w first arguments)).map Expr.literal? =
      (shiftArgument? arguments).map Expr.literal? := by
  refine fold_keywords_lag
    (R := fun (found' found : Option Expr) => found'.map Expr.literal? = found.map Expr.literal?)
    w first arguments ?_ ?_ (positional_head_lag w first arguments)
  · intro acc' acc w' e name v hacc
    by_cases hname : name = some "periods"
    · subst hname
      exact congrArg some (literal_lag? w' v)
    · split
      · simp_all
      · split
        · simp_all
        · exact hacc
  · intro acc a h
    cases a <;> first | rfl | cases h

theorem shift_amount_lag (w : Places) (first : Nat) (arguments : List Expr) :
    shiftAmount (lagAll imported w first arguments) = shiftAmount arguments := by
  have hliteral := @shift_argument_lag imported w first arguments
  unfold shiftAmount
  cases h : shiftArgument? arguments with
  | none =>
    rw [h, Option.map_none, Option.map_eq_none_iff] at hliteral
    rw [hliteral]
  | some a =>
    rw [h, Option.map_some, Option.map_eq_some_iff] at hliteral
    obtain ⟨a', ha', heq⟩ := hliteral
    rw [ha']
    simp only [heq]

/-! ## Datasets and columns stay -/

theorem alias_of_lag (w : Places) (e : Expr) {a : String}
    (h : alias? (lagReads imported w e) = some a) : alias? e = some a := by
  cases e with
  | name e id role =>
    rcases @lag_name_cases imported w e id role with he | he
    · rwa [he] at h
    · rw [he] at h
      nomatch h
  | member e value attr =>
    obtain ⟨v, hv, he | he⟩ := @lag_member_cases imported w e value attr
    · rw [he] at h
      rcases hv with rfl | rfl
      · exact h
      · obtain ⟨b, hb, rfl⟩ := Option.map_eq_some_iff.mp h
        exact Option.map_eq_some_iff.mpr ⟨b, alias_of_lag (w.below 0) value hb, rfl⟩
    · rw [he] at h
      nomatch h
  | subscript e value index =>
    obtain ⟨v, i, he | he⟩ := @lag_subscript_cases imported w e value index <;>
    · rw [he] at h
      nomatch h
  | call e func arguments =>
    obtain ⟨f, _, he⟩ := @lag_call_cases imported w e func arguments
    rw [he] at h
    nomatch h
  | _ => cases h

theorem last_element_lag (w : Places) (index : Expr) {key' : Expr}
    (h : lastElement? (lagReads imported w index) = some key') :
    ∃ key, lastElement? index = some key ∧ key'.textConstant? = key.textConstant? := by
  have hlast : ∀ (es : List Expr) (first : Nat), (lagAll imported w first es).getLast? = some key' →
      ∃ key, es.getLast? = some key ∧ key'.textConstant? = key.textConstant? := by
    intro es
    induction es with
    | nil => nofun
    | cons e es ih =>
      intro first h
      cases es with
      | nil =>
        obtain rfl := Option.some.inj h
        exact ⟨e, rfl, text_constant_lag _ e⟩
      | cons f es =>
        rw [List.getLast?_cons_cons]
        rw [lagAll, lagAll, List.getLast?_cons_cons] at h
        exact ih (first + 1) h
  cases hd : isDynamic index with
  | true =>
    have hnone : ∀ e, isDynamic e = true → lastElement? e = none := by
      intro e hd
      cases e <;> first | rfl | cases hd
    rw [hnone _ (dynamic_lag w hd)] at h
    nomatch h
  | false =>
    cases index with
    | tuple e es => exact hlast es 0 h
    | _ => cases hd <;> cases h

theorem lag_ne_member (w : Places) {e : Expr} (h : ∀ at_ v attr, e ≠ .member at_ v attr)
    (at_ : Extent) (v : Expr) (attr : String) : lagReads imported w e ≠ .member at_ v attr := by
  cases e with
  | name e id role =>
    rcases @lag_name_cases imported w e id role with h | h <;> rw [h] <;> nofun
  | member e value attr => exact absurd rfl (h e value attr)
  | subscript e value index =>
    obtain ⟨v, i, h | h⟩ := @lag_subscript_cases imported w e value index <;> rw [h] <;>
      nofun
  | call e func arguments =>
    obtain ⟨f, _, h⟩ := @lag_call_cases imported w e func arguments
    rw [h]
    nofun
  | _ => nofun

/-- The container and the key that a subscript of a member with lagged reads names a column by. -/
theorem member_parts_lag (w v : Places) (e : Extent) (inner : Expr) (attr : String) (index : Expr)
    {container' key' : Expr} {a : String}
    (h : columnParts? (lagReads imported w (.member e inner attr)) (lagReads imported v index) =
      some (container', key')) (ha : alias? container' = some a) :
    ∃ container key, columnParts? (.member e inner attr) index = some (container, key) ∧
      alias? container = some a ∧ key'.textConstant? = key.textConstant? := by
  obtain ⟨inner', hinner, he | he⟩ := @lag_member_cases imported w e inner attr
  · have halias := @alias_of_lag imported w (.member e inner attr) a
    rw [he] at h halias
    unfold columnParts? at h ⊢
    by_cases hattr : attr ∈ indexers
    · simp only [hattr, if_true] at h ⊢
      obtain ⟨key, hkey, heq⟩ := Option.map_eq_some_iff.mp h
      obtain ⟨rfl, rfl⟩ := Prod.mk.inj heq
      obtain ⟨last, hlast, htext⟩ := last_element_lag v index hkey
      refine ⟨inner, last, by rw [hlast]; rfl, ?_, htext⟩
      rcases hinner with rfl | rfl
      · exact ha
      · exact alias_of_lag _ inner ha
    · simp only [hattr, if_false] at h ⊢
      obtain ⟨rfl, rfl⟩ := Prod.mk.inj (Option.some.inj h)
      exact ⟨_, _, rfl, halias ha, text_constant_lag v index⟩
  · rw [he] at h
    obtain ⟨rfl, rfl⟩ := Prod.mk.inj (Option.some.inj h)
    nomatch ha

theorem column_of_lag (w v : Places) {value index : Expr} {c : Column}
    (h : columnOf? imported (lagReads imported w value) (lagReads imported v index) = some c) :
    columnOf? imported value index = some c := by
  obtain ⟨container', key', hparts, hname, halias, himp⟩ := column_of_eq_some.mp h
  have hboth : ∃ container key, columnParts? value index = some (container, key) ∧
      alias? container = some c.dataset ∧ key'.textConstant? = key.textConstant? := by
    by_cases hmember : ∃ e inner attr, value = .member e inner attr
    · obtain ⟨e, inner, attr, rfl⟩ := hmember
      exact member_parts_lag w v e inner attr index hparts halias
    · have hne : ∀ e inner attr, value ≠ .member e inner attr :=
        fun e inner attr h => hmember ⟨e, inner, attr, h⟩
      rw [column_parts_of_ne (lag_ne_member w hne)] at hparts
      obtain ⟨rfl, rfl⟩ := Prod.mk.inj (Option.some.inj hparts)
      exact ⟨value, index, column_parts_of_ne hne index, alias_of_lag w value halias,
        text_constant_lag v index⟩
  obtain ⟨container, key, hparts, halias, htext⟩ := hboth
  exact column_of_eq_some.mpr ⟨container, key, hparts, htext ▸ hname, halias, himp⟩

theorem last_of_init_lag (w : Places) (first : Nat) (es : List Expr) :
    (lagInit imported w first es).getLast? = es.getLast? := by
  match es with
  | [] => rfl
  | [e] => rfl
  | e :: f :: es =>
    have ih := last_of_init_lag w (first + 1) (f :: es)
    rw [lagInit, List.getLast?_cons_cons, ← ih]
    cases h : lagInit imported w (first + 1) (f :: es) with
    | nil =>
      rw [h] at ih
      exact absurd ih.symm (by simp)
    | cons g gs => rw [List.getLast?_cons_cons]

theorem column_of_rows_lag (w : Places) {value : Expr} {at_ : Extent} {parts : List Expr}
    (h : isIndexed value (.tuple at_ parts) = true) :
    columnOf? imported value (.tuple at_ (lagInit imported w 0 parts)) =
      columnOf? imported value (.tuple at_ parts) := by
  cases value with
  | member e inner attr =>
    have hattr : attr ∈ indexers := of_decide_eq_true h
    unfold columnOf? columnParts?
    simp only [hattr, if_true, lastElement?, last_of_init_lag]
  | _ => cases h

/-! ## Keys stay -/

theorem keys_none_lag (dataset : String) (w : Places) (first : Nat) (keys : List Expr)
    (h : keys.mapM (fun k => k.textConstant?.map fun name => (Column.mk dataset name, k.extent)) =
      none) :
    (lagAll imported w first keys).mapM
      (fun k => k.textConstant?.map fun name => (Column.mk dataset name, k.extent)) = none := by
  induction keys generalizing first with
  | nil => nomatch h
  | cons k ks ih =>
    rw [lagAll, List.mapM_cons, text_constant_lag]
    rw [List.mapM_cons] at h
    cases hk : k.textConstant? with
    | none => rfl
    | some name =>
      cases hks : ks.mapM
        (fun k => k.textConstant?.map fun name => (Column.mk dataset name, k.extent)) with
      | none =>
        rw [ih (first + 1) hks]
        rfl
      | some columns =>
        rw [hk, hks] at h
        nomatch h

theorem elements_lag (w : Places) (e : Expr) :
    elements? (lagReads imported w e) = (elements? e).map (lagAll imported w 0) := by
  cases h : isDynamic e with
  | true =>
    have hnone : ∀ e, isDynamic e = true → elements? e = none := by
      intro e h
      cases e <;> first | rfl | cases h
    rw [hnone _ (dynamic_lag w h), hnone e h]
    rfl
  | false => cases e <;> first | rfl | cases h

theorem key_columns_lag (w v : Places) {value index : Expr} (h : keyColumns? value index = none) :
    keyColumns? (lagReads imported w value) (lagReads imported v index) = none := by
  by_cases hname : ∃ at_ dataset role, value = .name at_ dataset role
  · obtain ⟨at_, dataset, role, rfl⟩ := hname
    rcases @lag_name_cases imported w at_ dataset role with he | he
    · rw [key_columns_name] at h
      rw [he, key_columns_name, elements_lag]
      cases hes : elements? index with
      | none => rfl
      | some keys =>
        cases keys with
        | nil => rfl
        | cons k ks =>
          rw [hes] at h
          exact keys_none_lag dataset v 0 (k :: ks) h
    · rw [he]
      rfl
  · have hne : ∀ at_ id role, value ≠ .name at_ id role :=
      fun at_ id role h => hname ⟨at_, id, role, h⟩
    exact key_columns_of_ne_name (lag_ne_name w hne) _

/-! ## Calls stay -/

theorem CalleeLagged.called_name {w : Places} {f f' : Expr} (h : CalleeLagged imported w f f') :
    calledName f' = calledName f := by
  cases h with
  | method | function => rfl
  | value _ hmember hname =>
    have hempty : ∀ e : Expr, (∀ at_ v attr, e ≠ .member at_ v attr) →
        (∀ at_ id role, e ≠ .name at_ id role) → calledName e = "" := by
      intro e hmember hname
      unfold calledName
      split
      · exact absurd rfl (hmember _ _ _)
      · exact absurd rfl (hname _ _ _)
      · rfl
    rw [hempty f hmember hname, hempty _ (lag_ne_member w hmember) (lag_ne_name w hname)]

theorem CalleeLagged.is_function {w : Places} {f f' : Expr} (h : CalleeLagged imported w f f') :
    isFunctionCall imported f' = isFunctionCall imported f := by
  cases h with
  | function => rfl
  | method at_ value attr =>
    by_cases hname : ∃ e id role, value = .name e id role
    · obtain ⟨e, id, role, rfl⟩ := hname
      rcases @lag_name imported (w.below 0) e id role with h | ⟨hread, h⟩
      · rw [h]
      · rw [h]
        exact (decide_eq_false hread.2).symm
    · have hmethod : ∀ v : Expr, (∀ e id role, v ≠ .name e id role) →
          isFunctionCall imported (.member at_ v attr) = false := by
        intro v hv
        unfold isFunctionCall
        split
        · rename_i heq
          injection heq with _ heq
          exact absurd heq (hv _ _ _)
        · rfl
        · simp_all
      have hne : ∀ e id role, value ≠ .name e id role := fun e id role h => hname ⟨e, id, role, h⟩
      rw [hmethod value hne, hmethod _ (lag_ne_name _ hne)]
  | value _ hmember hname =>
    have hfunction : ∀ e : Expr, (∀ at_ v attr, e ≠ .member at_ v attr) →
        isFunctionCall imported e = true := by
      intro e hmember
      unfold isFunctionCall
      split
      · exact absurd rfl (hmember _ _ _)
      · exact absurd rfl (hmember _ _ _)
      · rfl
    rw [hfunction f hmember, hfunction _ (lag_ne_member w hmember)]

end BacktestAudit.Flow
