import BacktestAudit.Fix.Splice

/-!
Selection of findings whose edits can be made in one pass.
-/
namespace BacktestAudit.Fix
open BacktestAudit.Source

structure Selection where
  selected : List Finding
  deferred : List Finding

def clashes (taken : List Edit) (f : Finding) : Bool :=
  f.edits.any fun e => taken.any fun t => collide e.span t.span

/-- Takes the fixable findings in order; one whose edits collide with edits already taken is
deferred. -/
def selectFrom (taken : List Edit) : List Finding → Selection
  | [] => ⟨[], []⟩
  | f :: fs =>
    if !f.fixAvailable then selectFrom taken fs
    else if clashes taken f then
      let rest := selectFrom taken fs
      { rest with deferred := f :: rest.deferred }
    else
      let rest := selectFrom (taken ++ f.edits) fs
      { rest with selected := f :: rest.selected }

def select (fs : List Finding) : Selection := selectFrom [] fs

/-- Fixable findings are selected or deferred, each in the order in which they come. -/
theorem select_from_partitions (taken : List Edit) (fs : List Finding) :
    (selectFrom taken fs).selected.Sublist (fs.filter (·.fixAvailable)) ∧
      (selectFrom taken fs).deferred.Sublist (fs.filter (·.fixAvailable)) ∧
      ((selectFrom taken fs).selected ++ (selectFrom taken fs).deferred).Perm
        (fs.filter (·.fixAvailable)) := by
  induction fs generalizing taken with
  | nil => exact ⟨.slnil, .slnil, .nil⟩
  | cons f fs ih =>
    unfold selectFrom
    split
    · next hnot =>
      rw [List.filter_cons_of_neg (by simpa using hnot)]
      exact ih taken
    · next hfix =>
      rw [List.filter_cons_of_pos (by simpa using hfix)]
      split
      · obtain ⟨hselected, hdeferred, hperm⟩ := ih taken
        exact ⟨hselected.cons f, hdeferred.cons_cons f, List.perm_middle.trans (hperm.cons f)⟩
      · obtain ⟨hselected, hdeferred, hperm⟩ := ih (taken ++ f.edits)
        exact ⟨hselected.cons_cons f, hdeferred.cons f, hperm.cons f⟩

theorem selected_sublist (taken : List Edit) (fs : List Finding) :
    (selectFrom taken fs).selected.Sublist fs :=
  (select_from_partitions taken fs).1.trans List.filter_sublist

theorem fix_available_of_mem_selected (taken : List Edit) (fs : List Finding) :
    ∀ f ∈ (selectFrom taken fs).selected, f.fixAvailable = true :=
  fun _ hf => (List.mem_filter.mp ((select_from_partitions taken fs).1.subset hf)).2

end BacktestAudit.Fix
