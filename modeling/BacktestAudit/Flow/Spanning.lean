import BacktestAudit.Flow.Graph

/-!
Datasets known to cover the training and the evaluation range: those configured, those cut into a
head and a tail, those given to a split function, and all selections of such datasets.
-/
namespace BacktestAudit.Flow

def addAlias (aliases : List String) (a : String) : List String :=
  if a ∈ aliases then aliases else aliases ++ [a]

def splitFunction : String := "train_test_split"

/-- The aliases that span of themselves. -/
def spanningSeeds (configured : List String) (derivations : List Derivation)
    (calls : List CallSite) : List String :=
  let has (source : String) (kind : DerivationKind) : Bool :=
    derivations.any fun d => d.source = source && d.kind = kind
  let cut := (derivations.map (·.source)).filter fun s => has s .head && has s .tail
  let split := (calls.filter (·.method = splitFunction)).flatMap fun c => c.argReads.map (·.frame)
  (configured ++ cut ++ split).foldl addAlias []

/-- A selection that leads from a spanning alias to one that is not yet known to span. -/
def extends? (spanning : List String) (d : Derivation) : Bool :=
  d.kind = .select && d.source ∈ spanning && d.target ∉ spanning

def takeUp (spanning : List String) (d : Derivation) : List String :=
  if extends? spanning d then spanning ++ [d.target] else spanning

/-- Goes through the derivations once; what one of them adds counts for those behind it. -/
def selectionPass (derivations : List Derivation) (spanning : List String) : List String :=
  derivations.foldl takeUp spanning

theorem take_up_of_extends {spanning : List String} {d : Derivation}
    (h : extends? spanning d = true) : takeUp spanning d = spanning ++ [d.target] := if_pos h

theorem take_up_of_not_extends {spanning : List String} {d : Derivation}
    (h : ¬ extends? spanning d = true) : takeUp spanning d = spanning := if_neg h

theorem subset_selection_pass (derivations : List Derivation) (spanning : List String) :
    spanning ⊆ selectionPass derivations spanning := by
  induction derivations generalizing spanning with
  | nil => exact List.Subset.refl _
  | cons d ds ih =>
    refine List.Subset.trans (fun a ha => ?_) (ih (takeUp spanning d))
    by_cases h : extends? spanning d = true
    · rw [take_up_of_extends h]
      exact List.mem_append_left _ ha
    · rwa [take_up_of_not_extends h]

/-- A pass that adds something takes up a target that was not there before. -/
theorem selection_pass_takes_up {derivations : List Derivation} {spanning : List String}
    (h : (selectionPass derivations spanning).length ≠ spanning.length) :
    ∃ d ∈ derivations, d.target ∉ spanning ∧ d.target ∈ selectionPass derivations spanning := by
  induction derivations generalizing spanning with
  | nil => exact absurd rfl h
  | cons d ds ih =>
    change (selectionPass ds (takeUp spanning d)).length ≠ _ at h
    show ∃ d' ∈ d :: ds, _ ∧ d'.target ∈ selectionPass ds (takeUp spanning d)
    by_cases hext : extends? spanning d = true
    · rw [take_up_of_extends hext]
      simp only [extends?, Bool.and_eq_true, decide_eq_true_eq] at hext
      exact ⟨d, List.mem_cons_self .., hext.2, subset_selection_pass _ _ (by simp)⟩
    · rw [take_up_of_not_extends hext] at h ⊢
      obtain ⟨d', hd', hnew⟩ := ih h
      exact ⟨d', List.mem_cons_of_mem _ hd', hnew⟩

/-- With each pass that adds something, fewer derivations have a target that is not known to span. -/
theorem unreached_lt {derivations : List Derivation} {spanning : List String}
    (h : (selectionPass derivations spanning).length ≠ spanning.length) :
    (derivations.filter fun d => d.target ∉ selectionPass derivations spanning).length <
      (derivations.filter fun d => d.target ∉ spanning).length := by
  have hsub : derivations.filter (fun d => decide (d.target ∉ selectionPass derivations spanning)) =
      (derivations.filter fun d => decide (d.target ∉ spanning)).filter
        fun d => decide (d.target ∉ selectionPass derivations spanning) := by
    rw [List.filter_filter]
    refine List.filter_congr fun d _ => ?_
    have := @subset_selection_pass derivations spanning d.target
    by_cases hd : d.target ∈ spanning <;> simp_all
  rw [hsub]
  obtain ⟨d, hd, hout, hin⟩ := selection_pass_takes_up h
  exact List.length_filter_lt_length_iff_exists.mpr
    ⟨d, List.mem_filter.mpr ⟨hd, by simpa using hout⟩, by simpa using hin⟩

/-- Goes through the derivations until a pass adds nothing. -/
def closeUnderSelection (derivations : List Derivation) (spanning : List String) : List String :=
  if _h : (selectionPass derivations spanning).length = spanning.length then spanning
  else closeUnderSelection derivations (selectionPass derivations spanning)
termination_by (derivations.filter fun d => d.target ∉ spanning).length
decreasing_by exact unreached_lt _h

namespace Graph

def spanning (g : Graph) (configured : List String) : List String :=
  closeUnderSelection g.derivations (spanningSeeds configured g.derivations g.calls)

end Graph
end BacktestAudit.Flow
