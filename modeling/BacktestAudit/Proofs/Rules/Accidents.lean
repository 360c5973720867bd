import BacktestAudit.Proofs.Rules.Reported

/-!
When the analysis of a unit fails by accident: when a literal that is read lies beyond the range of
doubles, or when a fill on data names its method by a literal that cannot be looked up.
-/
namespace BacktestAudit.Rules
open BacktestAudit.Syntax BacktestAudit.Flow BacktestAudit.Source
set_option autoImplicit false

/-! ## Rules that may fail -/

theorem filterAuxM_succeeds_iff {α ε : Type} {f : α → Except ε Bool} {as : List α} (acc : List α) :
    (∃ bs, List.filterAuxM f as acc = .ok bs) ↔ ∀ a ∈ as, ∃ b, f a = .ok b := by
  induction as generalizing acc with
  | nil => exact ⟨fun _ => nofun, fun _ => ⟨acc, rfl⟩⟩
  | cons a as ih =>
    rw [List.forall_mem_cons, List.filterAuxM]
    cases ha : f a with
    | error e => exact ⟨fun ⟨_, h⟩ => (nomatch h), fun ⟨⟨_, h⟩, _⟩ => nomatch h⟩
    | ok b => exact ⟨fun h => ⟨⟨b, rfl⟩, (ih _).mp h⟩, fun h => (ih _).mpr h.2⟩

theorem filterM_succeeds_iff {α ε : Type} {f : α → Except ε Bool} {as : List α} :
    (∃ bs, as.filterM f = .ok bs) ↔ ∀ a ∈ as, ∃ b, f a = .ok b := by
  rw [← filterAuxM_succeeds_iff []]
  unfold List.filterM
  cases List.filterAuxM f as [] with
  | error e => exact ⟨fun ⟨_, h⟩ => (nomatch h), fun ⟨_, h⟩ => nomatch h⟩
  | ok bs => exact ⟨fun _ => ⟨bs, rfl⟩, fun _ => ⟨bs.reverse, rfl⟩⟩

theorem deprecated_fills_succeed_iff {g : Graph} :
    (∃ ms, deprecatedFills g = .ok ms) ↔ ∀ c ∈ g.calls, ∃ b, isForwardFill c = .ok b := by
  rw [← filterM_succeeds_iff]
  unfold deprecatedFills
  cases g.calls.filterM isForwardFill with
  | error e => exact ⟨fun ⟨_, h⟩ => (nomatch h), fun ⟨_, h⟩ => nomatch h⟩
  | ok cs => exact ⟨fun _ => ⟨cs, rfl⟩, fun _ => ⟨_, rfl⟩⟩

theorem backfills_succeed_iff {g : Graph} :
    (∃ ms, backfills g = .ok ms) ↔ ∀ c ∈ g.calls, ∃ b, isBackfill c = .ok b := by
  rw [← filterM_succeeds_iff]
  unfold backfills
  cases g.calls.filterM isBackfill with
  | error e => exact ⟨fun ⟨_, h⟩ => (nomatch h), fun ⟨_, h⟩ => nomatch h⟩
  | ok cs => exact ⟨fun _ => ⟨cs, rfl⟩, fun _ => ⟨_, rfl⟩⟩

/-! ## Fills by what cannot be looked up -/

/-- A literal that can neither be compared with words nor looked up among them. -/
def isUnhashable : Literal → Bool
  | .str _ | .set _ => false
  | l => !l.isKey

theorem look_up_succeeds_iff {l : Literal} {words : List String} :
    (∃ b, lookUp l words = .ok b) ↔ isUnhashable l = false := by
  unfold lookUp isUnhashable
  split
  · simp
  · simp
  · cases hkey : l.isKey <;> simp [hkey]

def fillsByUnhashable (c : CallSite) : Bool :=
  c.method = "fillna" && !c.isFunction && (c.keyword? "method").any isUnhashable

theorem keyword_among_succeeds_iff {c : CallSite} {name : String} {words : List String} :
    (∃ b, keywordAmong c name words = .ok b) ↔ (c.keyword? name).any isUnhashable = false := by
  unfold keywordAmong
  cases c.keyword? name with
  | none => exact ⟨fun _ => rfl, fun _ => ⟨false, rfl⟩⟩
  | some l => exact look_up_succeeds_iff

theorem is_forward_fill_succeeds_iff {c : CallSite} :
    (∃ b, isForwardFill c = .ok b) ↔ fillsByUnhashable c = false := by
  unfold isForwardFill fillsByUnhashable
  cases decide (c.method = "fillna") && !c.isFunction with
  | true => exact keyword_among_succeeds_iff
  | false => exact ⟨fun _ => rfl, fun _ => ⟨false, rfl⟩⟩

theorem is_backfill_succeeds_iff {c : CallSite} :
    (∃ b, isBackfill c = .ok b) ↔ fillsByUnhashable c = false := by
  have hfill : "fillna" ∉ backwardFills := by decide
  unfold isBackfill fillsByUnhashable
  by_cases hmethod : c.method = "fillna"
  · rw [hmethod, if_neg hfill, if_pos rfl]
    cases c.isFunction with
    | true => simp
    | false => simpa using keyword_among_succeeds_iff
  · rw [if_neg hmethod]
    have hother : ∃ b, (if c.isFunction = true then .ok false
        else if c.method ∈ backwardFills then .ok true else .ok false : Except Accident Bool) =
          .ok b := by
      split
      · exact ⟨false, rfl⟩
      · split
        · exact ⟨true, rfl⟩
        · exact ⟨false, rfl⟩
    simp [hother, hmethod]

/-! ## Analysis -/

/-- What a unit needs so that its analysis comes to an end: no literal that is read lies out of range,
and no fill is looked up by what cannot be, if one of the rules on fills is active. -/
structure Analyzable (s : Settings) (unit : SourceUnit) : Prop where
  range : (Graph.ofUnit unit).leavesRange = false
  fills : Rule.deprecatedFill.code ∉ s.disabledRules ∨ Rule.backfill.code ∉ s.disabledRules →
    ∀ c ∈ (Graph.ofUnit unit).calls, fillsByUnhashable c = false

theorem analyzable_iff {s : Settings} {unit : SourceUnit} :
    (∃ fs, analyze s unit = .ok fs) ↔ Analyzable s unit := by
  have hdeprecated : (∃ ms, deprecatedFills (Graph.ofUnit unit) = .ok ms) ↔
      ∀ c ∈ (Graph.ofUnit unit).calls, fillsByUnhashable c = false := by
    simp only [deprecated_fills_succeed_iff, is_forward_fill_succeeds_iff]
  have hbackfill : (∃ ms, backfills (Graph.ofUnit unit) = .ok ms) ↔
      ∀ c ∈ (Graph.ofUnit unit).calls, fillsByUnhashable c = false := by
    simp only [backfills_succeed_iff, is_backfill_succeeds_iff]
  rw [analyze_succeeds_iff]
  constructor
  · rintro ⟨hrange, hrules⟩
    refine ⟨hrange, ?_⟩
    rintro (hactive | hactive)
    · exact hdeprecated.mp (hrules .deprecatedFill (Rule.mem_active.mpr hactive))
    · exact hbackfill.mp (hrules .backfill (Rule.mem_active.mpr hactive))
  · intro h
    refine ⟨h.range, fun r hr => ?_⟩
    have hactive := Rule.mem_active.mp hr
    cases r with
    | deprecatedFill => exact hdeprecated.mpr (h.fills (.inl hactive))
    | backfill => exact hbackfill.mpr (h.fills (.inr hactive))
    | _ => exact ⟨_, rfl⟩

end BacktestAudit.Rules
