import Mathlib.Data.List.Forall2
import BacktestAudit.Proofs.Flow.LaggedSyntax

/-!
The scan of an expression with lagged reads. It records the same reads in the same order, each under
the same shift or under one of a bar more, and misses none of the calls.
-/
namespace BacktestAudit.Flow
open BacktestAudit.Syntax BacktestAudit.Source
set_option autoImplicit false

/-! ## The order of traces -/

/-- A shift that is not smaller, or as unknown. -/
def ShiftLe : Shift → Shift → Prop
  | some k, some l => k ≤ l
  | none, none => True
  | _, _ => False

theorem ShiftLe.refl (s : Shift) : ShiftLe s s := by
  cases s with
  | none => trivial
  | some k => exact Int.le_refl k

theorem ShiftLe.add_one (s : Shift) : ShiftLe s (addShift s (some 1)) := by
  cases s <;> simp only [ShiftLe, addShift]
  omega

/-- A read of the same column at the same place under a shift that is not smaller. -/
structure Occurrence.Le (o o' : Occurrence) : Prop where
  column_eq : o'.column = o.column
  extent_eq : o'.extent = o.extent
  shift_le : ShiftLe o.shift o'.shift

/-- A call of the same method or function with the same literal arguments by name. -/
structure CallSite.Same (c c' : CallSite) : Prop where
  method_eq : c'.method = c.method
  function_eq : c'.isFunction = c.isFunction
  keywords_eq : c'.keywords = c.keywords

/-- A trace with the same reads, none of them under a smaller shift, and with all the calls. -/
structure Trace.Le (t t' : Trace) : Prop where
  reads : List.Forall₂ Occurrence.Le t.reads t'.reads
  calls : ∀ c ∈ t.calls, ∃ c' ∈ t'.calls, c.Same c'
  forward_eq : t'.forward = t.forward
  range_eq : t'.leavesRange = t.leavesRange

/-- Two shifts of which the second is as large as the first or by a bar larger. -/
def ShiftStep (s s' : Shift) : Prop := s' = s ∨ s' = addShift s (some 1)

/-- A read of the same column at the same place that is lagged by a bar or not. -/
structure Occurrence.Lagged (o o' : Occurrence) : Prop where
  column_eq : o'.column = o.column
  extent_eq : o'.extent = o.extent
  shift_step : ShiftStep o.shift o'.shift

/-- A trace with the same reads, some of them lagged by a bar, and with all the calls. -/
structure Trace.Lagged (t t' : Trace) : Prop where
  reads : List.Forall₂ Occurrence.Lagged t.reads t'.reads
  calls : ∀ c ∈ t.calls, ∃ c' ∈ t'.calls, c.Same c'
  forward_eq : t'.forward = t.forward
  range_eq : t'.leavesRange = t.leavesRange

theorem ShiftStep.le {s s' : Shift} (h : ShiftStep s s') : ShiftLe s s' := by
  rcases h with rfl | rfl
  · exact .refl s'
  · exact .add_one s

theorem Occurrence.Lagged.le {o o' : Occurrence} (h : o.Lagged o') : o.Le o' :=
  ⟨h.column_eq, h.extent_eq, h.shift_step.le⟩

namespace Trace.Lagged

theorem le {t t' : Trace} (h : t.Lagged t') : t.Le t' :=
  ⟨h.reads.imp fun _ _ ho => ho.le, h.calls, h.forward_eq, h.range_eq⟩

theorem refl (t : Trace) : t.Lagged t where
  reads := List.forall₂_same.mpr fun _ _ => ⟨rfl, rfl, .inl rfl⟩
  calls := fun c hc => ⟨c, hc, rfl, rfl, rfl⟩
  forward_eq := rfl
  range_eq := rfl

theorem read (column : Column) (extent : Extent) {s s' : Shift} (h : ShiftStep s s') :
    (Trace.read column s extent).Lagged (Trace.read column s' extent) :=
  ⟨.cons ⟨rfl, rfl, h⟩ .nil, nofun, rfl, rfl⟩

theorem append {a a' b b' : Trace} (ha : a.Lagged a') (hb : b.Lagged b') :
    (a ++ b).Lagged (a' ++ b') where
  reads := List.rel_append ha.reads hb.reads
  calls := by
    intro c hc
    rcases List.mem_append.mp hc with hc | hc
    · obtain ⟨c', hc', hsame⟩ := ha.calls c hc
      exact ⟨c', List.mem_append_left _ hc', hsame⟩
    · obtain ⟨c', hc', hsame⟩ := hb.calls c hc
      exact ⟨c', List.mem_append_right _ hc', hsame⟩
  forward_eq := congrArg₂ (· ++ ·) ha.forward_eq hb.forward_eq
  range_eq := congrArg₂ (· || ·) ha.range_eq hb.range_eq

end Trace.Lagged

/-! ## Scans of single nodes -/

variable {imported : List String}

/-- What is lagged by one bar is scanned under a shift larger by one. -/
theorem scan_lag_by_one {t : Trace} (shift : Shift) {e : Expr}
    (hmethod : isFunctionCall imported (.member e.extent e "shift") = false)
    (h : t.Lagged (scan imported (addShift shift (some 1)) e)) :
    t.Lagged (scan imported shift (lagByOne e)) := by
  have hinner : innerShift imported shift (.member e.extent e "shift")
      [.constant e.extent (.int 1)] = addShift shift (some 1) := by
    unfold innerShift
    rw [hmethod]
    rfl
  rw [lagByOne, scan_call, hinner]
  constructor
  · simpa [receiverTrace, scanAll, scan] using h.reads
  · intro c hc
    obtain ⟨c', hc', hsame⟩ := h.calls c hc
    exact ⟨c', List.mem_append_left _ (List.mem_append_left _ hc'), hsame⟩
  · simpa [receiverTrace, scanAll, scan] using h.forward_eq
  · have hrange := h.range_eq
    change (((scan imported (addShift shift (some 1)) e).leavesRange || false) || false) =
      t.leavesRange
    rw [hrange, Bool.or_false, Bool.or_false]

theorem scan_lag_if {w : Places} {e e' : Expr} (s : Shift)
    (hmethod : isFunctionCall imported (.member e'.extent e' "shift") = false)
    (h : ∀ s', ShiftStep s s' → (scan imported s e).Lagged (scan imported s' e')) :
    (scan imported s e).Lagged (scan imported s (lagIf w e')) := by
  rcases lag_if_cases w e' with he | he
  · rw [he]
    exact h s (.inl rfl)
  · rw [he]
    exact scan_lag_by_one s hmethod (h _ (.inr rfl))

theorem scan_name_lag (w : Places) (e : Extent) (id : String) (role : NameRole) (s : Shift) :
    (scan imported s (.name e id role)).Lagged
      (scan imported s (lagReads imported w (.name e id role))) := by
  rw [lagReads]
  by_cases hread : role = .read ∧ id ∉ imported
  · rw [if_pos hread]
    refine scan_lag_if s (decide_eq_false hread.2) fun s' hs => ?_
    rw [scan, scan, if_pos hread, if_pos hread]
    exact .read _ e hs
  · rw [if_neg hread]
    exact .refl _

/-! ## Members -/

/-- A member of a frame that stands for the frame reads the frame itself. -/
theorem scan_frame_lag (w : Places) (e at_ : Extent) (base : String) (role : NameRole)
    {attr : String} (himp : base ∉ imported) (hattr : attr ∈ indexers ∨ attr ∈ frameMembers)
    (s : Shift) :
    (scan imported s (.member e (.name at_ base role) attr)).Lagged
      (scan imported s (.member e (lagReads imported w (.name at_ base role)) attr)) := by
  have hframe : scan imported s (.member e (.name at_ base role) attr) =
      .read (.ofVariable base) s at_ := by
    rw [scan, if_neg himp, if_pos hattr]
  rcases @lag_name imported w at_ base role with h | ⟨hread, h⟩
  · rw [h]
    exact .refl _
  · rw [hframe, h, scan_member_of_ne fun _ _ _ => Expr.noConfusion]
    refine scan_lag_by_one s (decide_eq_false himp) ?_
    rw [scan, if_pos hread]
    exact .read _ at_ (.inr rfl)

theorem scan_member_name_lag (w : Places) (e at_ : Extent) (base : String) (role : NameRole)
    (attr : String) (s : Shift) :
    (scan imported s (.member e (.name at_ base role) attr)).Lagged
      (scan imported s (lagReads imported w (.member e (.name at_ base role) attr))) := by
  by_cases himp : base ∈ imported
  · have hlag : lagReads imported w (.member e (.name at_ base role) attr) =
        .member e (.name at_ base role) attr := by
      have hbelow : lagReads imported w (.member e (.name at_ base role) attr) =
          .member e (lagReads imported (w.below 0) (.name at_ base role)) attr := if_pos (.inl himp)
      rcases @lag_name imported (w.below 0) at_ base role with h | ⟨hread, _⟩
      · rw [hbelow, h]
      · exact absurd himp hread.2
    rw [hlag]
    exact .refl _
  · by_cases hattr : attr ∈ indexers ∨ attr ∈ frameMembers
    · have hlag : lagReads imported w (.member e (.name at_ base role) attr) =
          .member e (lagReads imported (w.below 0) (.name at_ base role)) attr :=
        if_pos (.inr hattr)
      rw [hlag]
      exact scan_frame_lag (w.below 0) e at_ base role himp hattr s
    · have hlag : lagReads imported w (.member e (.name at_ base role) attr) =
          lagIf w (.member e (.name at_ base role) attr) := if_neg (by simp [himp, hattr])
      rw [hlag]
      refine scan_lag_if s rfl fun s' hs => ?_
      rw [scan, scan, if_neg himp, if_neg himp, if_neg hattr, if_neg hattr]
      exact .read _ e hs

/-! ## Subscripts -/

theorem scan_column_lag (w : Places) (e : Extent) {value index index' : Expr} {c : Column}
    (hc : columnOf? imported value index = some c) (hc' : columnOf? imported value index' = some c)
    (hforward : forwardTrace e index' = forwardTrace e index)
    (hrows : (rowsTrace imported value index).Lagged (rowsTrace imported value index')) (s : Shift) :
    (scan imported s (.subscript e value index)).Lagged
      (scan imported s (lagIf w (.subscript e value index'))) := by
  refine scan_lag_if s rfl fun s' hs => ?_
  rw [scan_column hc, scan_column hc', hforward]
  exact (Trace.Lagged.refl _).append ((Trace.Lagged.read c e hs).append hrows)

theorem scan_subscript_lag (w : Places) (e : Extent) (value index : Expr) (s : Shift)
    (hvalue : (scan imported s value).Lagged
      (scan imported s (lagReads imported (w.below 0) value)))
    (hindex : (scan imported (some 0) index).Lagged
      (scan imported (some 0) (lagReads imported (w.below 1) index)))
    (hrows : ∀ at_ parts, index = .tuple at_ parts →
      (scanInit imported parts).Lagged (scanInit imported (lagInit imported (w.below 1) 0 parts))) :
    (scan imported s (.subscript e value index)).Lagged
      (scan imported s (lagReads imported w (.subscript e value index))) := by
  cases hc : columnOf? imported value index with
  | some c =>
    cases hindexed : isIndexed value index with
    | true =>
      cases index with
      | tuple at_ parts =>
        have hlag : lagReads imported w (.subscript e value (.tuple at_ parts)) =
            lagIf w (.subscript e value (.tuple at_ (lagInit imported (w.below 1) 0 parts))) := by
          unfold lagReads
          rw [hc, hindexed]
          rfl
        rw [hlag]
        refine scan_column_lag w e hc ((column_of_rows_lag _ hindexed).trans hc)
          (forward_trace_rows_lag _ e at_ parts) ?_ s
        have hindexed' : isIndexed value (.tuple at_ (lagInit imported (w.below 1) 0 parts)) = true := by
          rw [← hindexed]
          cases value <;> rfl
        rw [rowsTrace, rowsTrace, hindexed, hindexed']
        exact hrows at_ parts rfl
      | _ => cases value <;> cases hindexed
    | false =>
      have hlag : lagReads imported w (.subscript e value index) =
          lagIf w (.subscript e value index) := by
        unfold lagReads
        rw [hc, hindexed]
        rfl
      rw [hlag]
      exact scan_column_lag w e hc hc rfl (.refl _) s
  | none =>
    cases hk : keyColumns? value index with
    | some columns =>
      have hlag : lagReads imported w (.subscript e value index) = .subscript e value index := by
        unfold lagReads
        rw [hc, hk]
      rw [hlag]
      exact .refl _
    | none =>
      have hlag : lagReads imported w (.subscript e value index) =
          .subscript e (lagReads imported (w.below 0) value)
            (lagReads imported (w.below 1) index) := by
        conv_lhs => unfold lagReads
        rw [hc, hk]
      have hc' : columnOf? imported (lagReads imported (w.below 0) value)
          (lagReads imported (w.below 1) index) = none := by
        cases h : columnOf? imported (lagReads imported (w.below 0) value)
          (lagReads imported (w.below 1) index) with
        | none => rfl
        | some c =>
          rw [column_of_lag _ _ h] at hc
          cases hc
      rw [hlag, scan_parts hc hk, scan_parts hc' (key_columns_lag _ _ hk), forward_trace_lag]
      exact (Trace.Lagged.refl _).append (hvalue.append hindex)

theorem lag_init_ne_nil (w : Places) (first : Nat) (e : Expr) (es : List Expr) :
    lagInit imported w first (e :: es) ≠ [] := by
  cases es <;> exact List.cons_ne_nil _ _

/-! ## Calls -/

/-- A call leaves the same shift to its receiver. -/
theorem inner_shift_lag {w : Places} {f f' : Expr} (hf : CalleeLagged imported w f f') (v : Places)
    (first : Nat) (arguments : List Expr) (s : Shift) :
    innerShift imported s f' (lagAll imported v first arguments) =
      innerShift imported s f arguments := by
  unfold innerShift
  rw [hf.called_name, hf.is_function, shift_amount_lag]

theorem scan_call_lag {w v : Places} {f f' : Expr} (hf : CalleeLagged imported w f f') (e : Extent)
    (arguments : List Expr) (s : Shift)
    (hreceiver : ∀ s, (receiverTrace imported s f).Lagged (receiverTrace imported s f'))
    (hargs : ∀ s,
      (scanAll imported s arguments).Lagged (scanAll imported s (lagAll imported v 1 arguments))) :
    (scan imported s (.call e f arguments)).Lagged
      (scan imported s (.call e f' (lagAll imported v 1 arguments))) := by
  rw [scan_call, scan_call, inner_shift_lag hf, hf.called_name]
  refine ((hreceiver _).append (hargs _)).append
    ⟨.nil, ?_, rfl, arguments_leave_range_lag v 1 arguments⟩
  intro c hc
  rw [List.mem_singleton.mp hc]
  exact ⟨_, List.mem_singleton_self _, hf.called_name, hf.is_function,
    literal_keywords_lag v 1 arguments⟩

/-! ## Scans of lagged expressions -/

mutual

theorem scan_lag (w : Places) (e : Expr) (s : Shift) :
    (scan imported s e).Lagged (scan imported s (lagReads imported w e)) := by
  cases e with
  | name e id role => exact scan_name_lag w e id role s
  | constant e v => exact .refl .empty
  | member e value attr =>
    by_cases hname : ∃ at_ base role, value = .name at_ base role
    · obtain ⟨at_, base, role, rfl⟩ := hname
      exact scan_member_name_lag w e at_ base role attr s
    · have hne : ∀ at_ id role, value ≠ .name at_ id role :=
        fun at_ id role h => hname ⟨at_, id, role, h⟩
      have hlag : lagReads imported w (.member e value attr) =
          .member e (lagReads imported (w.below 0) value) attr := by
        cases value with
        | name at_ id role => exact absurd rfl (hne at_ id role)
        | _ => rfl
      rw [hlag, scan_member_of_ne hne, scan_member_of_ne (lag_ne_name _ hne)]
      exact scan_lag (w.below 0) value s
  | subscript e value index =>
    refine scan_subscript_lag w e value index s (scan_lag (w.below 0) value s)
      (scan_lag (w.below 1) index (some 0)) ?_
    rintro at_ parts rfl
    exact scan_init_lag (w.below 1) 0 parts
  | call e func arguments =>
    obtain ⟨func', hf, h⟩ := lag_call_cases w e func arguments
    rw [h]
    refine scan_call_lag hf e arguments s (fun s => ?_) (scan_all_lag w 1 arguments)
    cases hf with
    | method at_ value attr => exact scan_lag ((w.below 0).below 0) value s
    | function => exact .refl .empty
    | value _ hmember hname =>
      rw [receiver_of_ne hmember hname,
        receiver_of_ne (lag_ne_member _ hmember) (lag_ne_name _ hname)]
      exact scan_lag (w.below 0) func s
  | keyword e name value | starred e value | unary e op value => exact scan_lag (w.below 0) value s
  | binary e op l r => exact (scan_lag (w.below 0) l s).append (scan_lag (w.below 1) r s)
  | tuple e es | list e es | set e es | composite e form es => exact scan_all_lag w 0 es s
  | dict e ks vs => exact (scan_all_lag w 0 ks s).append (scan_all_lag w ks.length vs s)

theorem scan_all_lag (w : Places) (first : Nat) (es : List Expr) (s : Shift) :
    (scanAll imported s es).Lagged (scanAll imported s (lagAll imported w first es)) := by
  cases es with
  | nil => exact .refl .empty
  | cons e es => exact (scan_lag (w.below first) e s).append (scan_all_lag w (first + 1) es s)

theorem scan_init_lag (w : Places) (first : Nat) (es : List Expr) :
    (scanInit imported es).Lagged (scanInit imported (lagInit imported w first es)) := by
  match es with
  | [] => exact .refl .empty
  | [e] => exact .refl .empty
  | e :: f :: es =>
    rw [lagInit, scanInit, scan_init_cons (lag_init_ne_nil w (first + 1) f es)]
    exact (scan_lag (w.below first) e (some 0)).append (scan_init_lag w (first + 1) (f :: es))

end

end BacktestAudit.Flow
