import BacktestAudit.Flow.Spanning
import Mathlib.Data.List.Nodup
import Mathlib.Logic.Function.Iterate
import Mathlib.Logic.Relation

/-!
The datasets that span are those that selections lead to from the ones that span of themselves. What
is known to span stays among them in every pass over the derivations, and a pass that adds nothing
leaves a set that selections do not lead out of; neither depends on the order of the derivations.
-/
namespace BacktestAudit.Flow
set_option autoImplicit false

/-- A derivation selects from one dataset to make another. -/
def Selects (derivations : List Derivation) (source target : String) : Prop :=
  ∃ d ∈ derivations, d.kind = .select ∧ d.source = source ∧ d.target = target

theorem extends_iff {spanning : List String} {d : Derivation} :
    extends? spanning d = true ↔ d.kind = .select ∧ d.source ∈ spanning ∧ d.target ∉ spanning := by
  simp [extends?, and_assoc]

/-! ## Passes -/

section Passes

variable {ds : List Derivation} {known : List String}

theorem length_le_selection_pass (ds : List Derivation) (known : List String) :
    known.length ≤ (selectionPass ds known).length := by
  induction ds generalizing known with
  | nil => exact Nat.le_refl _
  | cons d ds ih =>
    refine Nat.le_trans ?_ (ih (takeUp known d))
    by_cases h : extends? known d = true
    · rw [take_up_of_extends h, List.length_append]
      omega
    · exact Nat.le_of_eq (congrArg List.length (take_up_of_not_extends h).symm)

theorem nodup_selection_pass (ds : List Derivation) (h : known.Nodup) :
    (selectionPass ds known).Nodup := by
  induction ds generalizing known with
  | nil => exact h
  | cons d ds ih =>
    refine ih ?_
    by_cases hext : extends? known d = true
    · rw [take_up_of_extends hext, ← List.concat_eq_append]
      exact h.concat (extends_iff.mp hext).2.2
    · rwa [take_up_of_not_extends hext]

theorem selection_pass_keeps {P : String → Prop}
    (hstep : ∀ a b, Selects ds a b → P a → P b) (h : ∀ a ∈ known, P a) :
    ∀ a ∈ selectionPass ds known, P a := by
  induction ds generalizing known with
  | nil => exact h
  | cons d ds ih =>
    refine ih (fun a b ⟨d', hd', hab⟩ => hstep a b ⟨d', List.mem_cons_of_mem _ hd', hab⟩) ?_
    by_cases hext : extends? known d = true
    · obtain ⟨hkind, hsource, -⟩ := extends_iff.mp hext
      rw [take_up_of_extends hext]
      intro a ha
      rcases List.mem_append.mp ha with ha | ha
      · exact h a ha
      · rw [List.mem_singleton.mp ha]
        exact hstep _ _ ⟨d, List.mem_cons_self .., hkind, rfl, rfl⟩ (h _ hsource)
    · rwa [take_up_of_not_extends hext]

theorem closed_of_idle_pass (h : (selectionPass ds known).length = known.length) :
    ∀ a b, Selects ds a b → a ∈ known → b ∈ known := by
  induction ds with
  | nil =>
    rintro a b ⟨d, hd, -⟩
    cases hd
  | cons d ds ih =>
    change (selectionPass ds (takeUp known d)).length = _ at h
    have hidle : ¬ extends? known d = true := by
      intro hext
      rw [take_up_of_extends hext] at h
      have hle := length_le_selection_pass ds (known ++ [d.target])
      simp only [List.length_append, List.length_singleton] at hle
      omega
    rw [take_up_of_not_extends hidle] at h
    rintro a b ⟨d', hd', hkind, rfl, rfl⟩ ha
    rcases List.mem_cons.mp hd' with rfl | hd'
    · by_contra hb
      exact hidle (extends_iff.mpr ⟨hkind, ha, hb⟩)
    · exact ih h _ _ ⟨d', hd', hkind, rfl, rfl⟩ ha

/-! ## All passes -/

theorem subset_close (ds : List Derivation) (known : List String) :
    known ⊆ closeUnderSelection ds known := by
  fun_induction closeUnderSelection ds known with
  | case1 known _ => exact List.Subset.refl _
  | case2 known _ ih => exact List.Subset.trans (subset_selection_pass ds known) ih

theorem close_keeps {P : String → Prop} (hstep : ∀ a b, Selects ds a b → P a → P b)
    (h : ∀ a ∈ known, P a) : ∀ a ∈ closeUnderSelection ds known, P a := by
  fun_induction closeUnderSelection ds known with
  | case1 known _ => exact h
  | case2 known _ ih => exact ih (selection_pass_keeps hstep h)

theorem close_closed : ∀ a b, Selects ds a b → a ∈ closeUnderSelection ds known →
    b ∈ closeUnderSelection ds known := by
  fun_induction closeUnderSelection ds known with
  | case1 known hidle => exact closed_of_idle_pass hidle
  | case2 known _ ih => exact ih

theorem nodup_close (h : known.Nodup) : (closeUnderSelection ds known).Nodup := by
  fun_induction closeUnderSelection ds known with
  | case1 known _ => exact h
  | case2 known _ ih => exact ih (nodup_selection_pass ds h)

/-- Passes come to an end, because each but the last reaches a target for the first time. -/
theorem close_eq_iterate (ds : List Derivation) (known : List String) :
    ∃ passes ≤ (ds.filter fun d => d.target ∉ known).length,
      closeUnderSelection ds known = (selectionPass ds)^[passes] known := by
  fun_induction closeUnderSelection ds known with
  | case1 known _ => exact ⟨0, Nat.zero_le _, rfl⟩
  | case2 known hadds ih =>
    obtain ⟨passes, hle, heq⟩ := ih
    exact ⟨passes + 1, Nat.lt_of_le_of_lt hle (unreached_lt hadds), heq⟩

theorem mem_close_iff {a : String} : a ∈ closeUnderSelection ds known ↔
    ∃ s ∈ known, Relation.ReflTransGen (Selects ds) s a := by
  constructor
  · have hstep : ∀ a b, Selects ds a b →
        (∃ s ∈ known, Relation.ReflTransGen (Selects ds) s a) →
        ∃ s ∈ known, Relation.ReflTransGen (Selects ds) s b :=
      fun _ _ hab ⟨s, hs, hsa⟩ => ⟨s, hs, hsa.tail hab⟩
    exact close_keeps hstep (fun b hb => ⟨b, hb, .refl⟩) a
  · rintro ⟨s, hs, hsa⟩
    induction hsa with
    | refl => exact subset_close ds known hs
    | tail _ hab ih => exact close_closed _ _ hab ih

end Passes

/-! ## Seeds -/

/-- A dataset spans of itself when it is configured to, when it is cut into a head and a tail, or when a
split function takes it. -/
inductive SpansOfItself (g : Graph) (configured : List String) : String → Prop
  | configured {a : String} : a ∈ configured → SpansOfItself g configured a
  | cut {head tail : Derivation} : head ∈ g.derivations → tail ∈ g.derivations →
      head.kind = .head → tail.kind = .tail → head.source = tail.source →
      SpansOfItself g configured head.source
  | split {call : CallSite} {read : Column} : call ∈ g.calls → call.method = "train_test_split" →
      read ∈ call.argReads → SpansOfItself g configured read.frame

theorem mem_fold_add_alias {as known : List String} {a : String} :
    a ∈ as.foldl addAlias known ↔ a ∈ known ∨ a ∈ as := by
  induction as generalizing known with
  | nil => simp
  | cons b as ih =>
    rw [List.foldl_cons, ih, List.mem_cons, ← or_assoc]
    refine or_congr_left ?_
    unfold addAlias
    split
    · next hb => exact ⟨.inl, fun h => h.elim id fun h => h ▸ hb⟩
    · simp

theorem nodup_fold_add_alias {as known : List String} (h : known.Nodup) :
    (as.foldl addAlias known).Nodup := by
  induction as generalizing known with
  | nil => exact h
  | cons b as ih =>
    refine ih ?_
    unfold addAlias
    split
    · exact h
    · next hb =>
      rw [← List.concat_eq_append]
      exact h.concat hb

theorem mem_spanning_seeds_iff {g : Graph} {configured : List String} {a : String} :
    a ∈ spanningSeeds configured g.derivations g.calls ↔ SpansOfItself g configured a := by
  have hcut : a ∈ (g.derivations.map (·.source)).filter (fun s =>
      (g.derivations.any fun d => d.source = s && d.kind = .head) &&
        g.derivations.any fun d => d.source = s && d.kind = .tail) ↔
      ∃ head ∈ g.derivations, ∃ tail ∈ g.derivations, head.kind = .head ∧ tail.kind = .tail ∧
        head.source = a ∧ tail.source = a := by
    simp only [List.mem_filter, List.mem_map, Bool.and_eq_true, List.any_eq_true, decide_eq_true_eq]
    constructor
    · rintro ⟨-, ⟨head, hhead, hsource, hkind⟩, tail, htail, hsource', hkind'⟩
      exact ⟨head, hhead, tail, htail, hkind, hkind', hsource, hsource'⟩
    · rintro ⟨head, hhead, tail, htail, hkind, hkind', hsource, hsource'⟩
      exact ⟨⟨head, hhead, hsource⟩, ⟨head, hhead, hsource, hkind⟩, tail, htail, hsource', hkind'⟩
  have hsplit : a ∈ (g.calls.filter (·.method = splitFunction)).flatMap
      (fun c => c.argReads.map (·.frame)) ↔
      ∃ call ∈ g.calls, call.method = "train_test_split" ∧ ∃ read ∈ call.argReads,
        read.frame = a := by
    simp only [List.mem_flatMap, List.mem_filter, List.mem_map, decide_eq_true_eq, and_assoc]
    rfl
  unfold spanningSeeds
  rw [mem_fold_add_alias, List.mem_append, List.mem_append, hcut, hsplit]
  constructor
  · rintro (h | (h | ⟨head, hhead, tail, htail, hkind, hkind', rfl, hsource⟩) |
      ⟨call, hcall, hmethod, read, hread, rfl⟩)
    · cases h
    · exact .configured h
    · exact .cut hhead htail hkind hkind' hsource.symm
    · exact .split hcall hmethod hread
  · rintro (h | ⟨hhead, htail, hkind, hkind', hsource⟩ | ⟨hcall, hmethod, hread⟩)
    · exact .inr (.inl (.inl h))
    · exact .inr (.inl (.inr ⟨_, hhead, _, htail, hkind, hkind', rfl, hsource.symm⟩))
    · exact .inr (.inr ⟨_, hcall, hmethod, _, hread, rfl⟩)

/-! ## What spans -/

namespace Graph

variable {g : Graph} {configured more : List String}

theorem mem_spanning_iff {a : String} : a ∈ g.spanning configured ↔
    ∃ s, SpansOfItself g configured s ∧ Relation.ReflTransGen (Selects g.derivations) s a := by
  unfold spanning
  simp only [mem_close_iff, mem_spanning_seeds_iff]

theorem spanning_eq_iterate : ∃ passes ≤ g.derivations.length, g.spanning configured =
    (selectionPass g.derivations)^[passes] (spanningSeeds configured g.derivations g.calls) := by
  obtain ⟨passes, hle, heq⟩ := close_eq_iterate g.derivations
    (spanningSeeds configured g.derivations g.calls)
  exact ⟨passes, Nat.le_trans hle (List.length_filter_le ..), heq⟩

theorem nodup_spanning : (g.spanning configured).Nodup :=
  nodup_close (nodup_fold_add_alias List.nodup_nil)

theorem spans_of_itself_mono {derivations : List Derivation} {calls : List CallSite} {a : String}
    (hds : g.derivations ⊆ derivations) (hcalls : g.calls ⊆ calls) (hmore : configured ⊆ more)
    (h : SpansOfItself g configured a) :
    SpansOfItself { g with derivations, calls } more a := by
  cases h with
  | configured h => exact .configured (hmore h)
  | cut hhead htail hkind hkind' hsource =>
    exact .cut (hds hhead) (hds htail) hkind hkind' hsource
  | split hcall hmethod hread => exact .split (hcalls hcall) hmethod hread

theorem spanning_mono {derivations : List Derivation} {calls : List CallSite}
    (hds : g.derivations ⊆ derivations) (hcalls : g.calls ⊆ calls) (hmore : configured ⊆ more) :
    g.spanning configured ⊆ { g with derivations, calls }.spanning more := by
  intro a ha
  obtain ⟨s, hs, hsa⟩ := mem_spanning_iff.mp ha
  refine mem_spanning_iff.mpr ⟨s, spans_of_itself_mono hds hcalls hmore hs, ?_⟩
  have hwider : ∀ b c, Selects g.derivations b c → Selects derivations b c :=
    fun _ _ ⟨d, hd, hbc⟩ => ⟨d, hds hd, hbc⟩
  exact Relation.ReflTransGen.mono hwider _ _ hsa

/-- After no more passes than there are derivations, the datasets known to span are those that
selections lead to, in any number, from one that spans of itself. Each is listed once; in which order
derivations and calls stand makes no difference to which they are, and with more configured there are
no fewer of them. -/
theorem spanning_is_closure (g : Graph) (configured : List String) :
    (∃ passes ≤ g.derivations.length, g.spanning configured =
      (selectionPass g.derivations)^[passes]
        (spanningSeeds configured g.derivations g.calls)) ∧
    (∀ a, a ∈ g.spanning configured ↔ ∃ s, SpansOfItself g configured s ∧
      Relation.ReflTransGen (Selects g.derivations) s a) ∧
    (g.spanning configured).Nodup ∧
    (∀ derivations calls, derivations.Perm g.derivations → calls.Perm g.calls →
      ({ g with derivations, calls }.spanning configured).Perm (g.spanning configured)) ∧
    ∀ more, configured ⊆ more → g.spanning configured ⊆ g.spanning more := by
  refine ⟨spanning_eq_iterate, fun a => mem_spanning_iff, nodup_spanning, ?_, ?_⟩
  · intro derivations calls hds hcalls
    rw [List.perm_ext_iff_of_nodup nodup_spanning nodup_spanning]
    intro a
    constructor
    · intro ha
      exact @spanning_mono { g with derivations, calls } _ _ g.derivations g.calls hds.subset
        hcalls.subset (List.Subset.refl _) _ ha
    · intro ha
      exact spanning_mono hds.symm.subset hcalls.symm.subset (List.Subset.refl _) ha
  · intro more hmore
    exact spanning_mono (List.Subset.refl _) (List.Subset.refl _) hmore

end Graph
end BacktestAudit.Flow
