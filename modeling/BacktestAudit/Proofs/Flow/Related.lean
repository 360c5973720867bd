import Mathlib.Data.List.Forall2
import Mathlib.Logic.Relation
import BacktestAudit.Proofs.Flow.Sources

/-!
Two assignments that correspond: the targets of one to those of the other, and its value to the other
value. They are taken apart alike, so whatever relation of two graphs is kept by recording related
reads is kept by taking in the two.
-/
namespace BacktestAudit.Flow
open BacktestAudit.Syntax BacktestAudit.Source
set_option autoImplicit false

/-! ## Related lists -/

section Lists
variable {α β : Type} {R : α → β → Prop} {as : List α} {bs : List β}

theorem forall₂_getElem? (h : List.Forall₂ R as bs) (i : Nat) : Option.Rel R as[i]? bs[i]? := by
  induction h generalizing i with
  | nil => exact .none
  | cons hhead _ ih =>
    cases i with
    | zero => exact .some hhead
    | succ i => exact ih i

theorem isEmpty_of_forall₂ (h : List.Forall₂ R as bs) : bs.isEmpty = as.isEmpty := by
  cases h <;> rfl

theorem map_eq_of_forall₂ {γ : Type} {f : α → γ} {g : β → γ} (h : List.Forall₂ R as bs)
    (hfg : ∀ a b, R a b → g b = f a) : bs.map g = as.map f := by
  induction h with
  | nil => rfl
  | cons hhead _ ih => rw [List.map_cons, List.map_cons, hfg _ _ hhead, ih]

theorem forall₂_comp {γ : Type} {S : β → γ → Prop} {cs : List γ} (h : List.Forall₂ R as bs)
    (h' : List.Forall₂ S bs cs) : List.Forall₂ (Relation.Comp R S) as cs := by
  induction h generalizing cs with
  | nil =>
    cases h'
    exact .nil
  | cons hhead _ ih =>
    cases h' with
    | cons hhead' htail' => exact .cons ⟨_, hhead, hhead'⟩ (ih htail')

theorem rel_zip {γ δ : Type} {S : γ → δ → Prop} {cs : List γ} {ds : List δ}
    (h : List.Forall₂ R as bs) (h' : List.Forall₂ S cs ds) :
    List.Forall₂ (fun a b => R a.1 b.1 ∧ S a.2 b.2) (as.zip cs) (bs.zip ds) := by
  induction h generalizing cs ds with
  | nil => exact .nil
  | cons hhead _ ih =>
    cases h' with
    | nil => exact .nil
    | cons hhead' htail' => exact .cons ⟨hhead, hhead'⟩ (ih htail')

theorem rel_mapIdx {γ δ : Type} {S : γ → δ → Prop} {f : Nat → α → γ} {g : Nat → β → δ}
    (h : List.Forall₂ R as bs) (hfg : ∀ i a b, R a b → S (f i a) (g i b)) :
    List.Forall₂ S (as.mapIdx f) (bs.mapIdx g) := by
  induction h generalizing f g with
  | nil => exact .nil
  | cons hhead _ ih =>
    rw [List.mapIdx_cons, List.mapIdx_cons]
    exact .cons (hfg 0 _ _ hhead) (ih fun i a b => hfg (i + 1) a b)

theorem getD_map_rel {γ : Type} {S : γ → γ → Prop} {f : α → γ} {g : β → γ} {a : Option α}
    {b : Option β} (d : γ) (h : Option.Rel R a b) (hfg : ∀ a b, R a b → S (f a) (g b)) (hd : S d d) :
    S ((a.map f).getD d) ((b.map g).getD d) := by
  cases h with
  | none => exact hd
  | some hab => exact hfg _ _ hab

end Lists

/-! ## Parts of assigned values -/

/-- The same part, with related things known of it. -/
structure SamePart {α β : Type} (R : α → β → Prop) (a : Part × α) (b : Part × β) : Prop where
  part_eq : b.1 = a.1
  rel : R a.2 b.2

/-- Related targets that take the same part, with related expressions for it. -/
structure SamePair (G E : Expr → Expr → Prop) (a b : Expr × Part × Expr) : Prop where
  target : G a.1 b.1
  part_eq : b.2.1 = a.2.1
  value : E a.2.2 b.2.2

/-- A relation of expressions that related displays hand on to their elements. -/
def Elementwise (E : Expr → Expr → Prop) : Prop :=
  ∀ e e', E e e' → Option.Rel (List.Forall₂ E) (elements? e) (elements? e')

theorem elementwise_eq : Elementwise Eq := by
  rintro e _ rfl
  cases elements? e with
  | none => exact .none
  | some es => exact .some (List.forall₂_eq_eq_eq.symm ▸ rfl)

variable {G E : Expr → Expr → Prop}

theorem Elementwise.comp (hG : Elementwise G) (hE : Elementwise E) :
    Elementwise (Relation.Comp G E) := by
  rintro e e' ⟨d, hd, hd'⟩
  have hleft := hG e d hd
  have hright := hE d e' hd'
  generalize elements? e = es, elements? d = ds, elements? e' = es' at hleft hright
  cases hleft with
  | none =>
    cases hright
    exact .none
  | some hleft =>
    cases hright with
    | some hright => exact .some (forall₂_comp hleft hright)

theorem pair_targets_rel (hG : Elementwise G) (hE : Elementwise E) {targets targets' : List Expr}
    (htargets : List.Forall₂ G targets targets') {value value' : Expr} (hvalue : E value value') :
    List.Forall₂ (SamePair G E) (pairTargets targets value) (pairTargets targets' value') := by
  unfold pairTargets
  refine List.rel_flatMap htargets fun t t' ht => ?_
  have hwhole : List.Forall₂ (SamePair G E) [(t, .whole, value)] [(t', .whole, value')] :=
    .cons ⟨ht, rfl, hvalue⟩ .nil
  have hts := hG t t' ht
  have hvs := hE value value' hvalue
  generalize elements? t = ts, elements? t' = ts' at hts
  generalize elements? value = vs, elements? value' = vs' at hvs
  cases hts with
  | none => exact hwhole
  | some hts =>
    cases hvs with
    | none => exact hwhole
    | some hvs =>
      simp only [← hts.length_eq, ← hvs.length_eq]
      split
      · exact rel_mapIdx (rel_zip hts hvs) fun i a b hab => ⟨hab.1, rfl, hab.2⟩
      · exact hwhole

theorem any_part_eq {α β : Type} {R : α → β → Prop} {acc : List (Part × α)} {acc' : List (Part × β)}
    (h : List.Forall₂ (SamePart R) acc acc') (part : Part) :
    acc'.any (·.1 = part) = acc.any (·.1 = part) := by
  induction h with
  | nil => rfl
  | cons hhead _ ih => rw [List.any_cons, List.any_cons, ih, hhead.part_eq]

theorem used_parts_rel {pairs pairs' : List (Expr × Part × Expr)}
    (h : List.Forall₂ (SamePair G E) pairs pairs') :
    List.Forall₂ (SamePart E) (usedParts pairs) (usedParts pairs') := by
  unfold usedParts
  refine List.rel_foldl (P := List.Forall₂ (SamePart E)) ?_ .nil h
  intro acc acc' hacc pair pair' hpair
  obtain ⟨t, part, v⟩ := pair
  obtain ⟨t', part', v'⟩ := pair'
  obtain ⟨_, rfl, hv⟩ := hpair
  simp only [any_part_eq hacc]
  split
  · exact hacc
  · exact List.rel_append hacc (.cons ⟨rfl, hv⟩ .nil)

theorem map_parts_rel {α β γ δ : Type} {R : α → β → Prop} {S : γ → δ → Prop} {f : α → γ}
    {g : β → δ} {as : List (Part × α)} {bs : List (Part × β)}
    (h : List.Forall₂ (SamePart R) as bs) (hfg : ∀ a b, R a b → S (f a) (g b)) :
    List.Forall₂ (SamePart S) (as.map fun (part, a) => (part, f a))
      (bs.map fun (part, b) => (part, g b)) :=
  List.rel_map (fun _ _ hab => ⟨hab.part_eq, hfg _ _ hab.rel⟩) h

theorem lookup_rel {R : Read → Read → Prop} {readsOf readsOf' : List (Part × List Read)}
    (h : List.Forall₂ (SamePart (List.Forall₂ R)) readsOf readsOf') (part : Part) :
    List.Forall₂ R ((readsOf.lookup part).getD []) ((readsOf'.lookup part).getD []) := by
  induction h with
  | nil => exact .nil
  | cons hhead _ ih =>
    rename_i a b _ _ _
    obtain ⟨q, rs⟩ := a
    obtain ⟨q', rs'⟩ := b
    obtain ⟨rfl, hrs⟩ := hhead
    rw [List.lookup_cons, List.lookup_cons]
    cases part == q' with
    | true => exact hrs
    | false => exact ih

/-! ## Assignments -/

/-- A relation of what has been taken into two graphs that recording related reads keeps. -/
structure Carries (P : Progress → Progress → Prop) (R : Read → Read → Prop) : Prop where
  derive : ∀ {p p'} ds ds', P p p' → P (p.derive ds) (p'.derive ds')
  record : ∀ {p p'} c e e' place {reads reads'}, P p p' → List.Forall₂ R reads reads' →
    P (p.record c e place reads) (p'.record c e' place reads')

namespace Carries

variable {P : Progress → Progress → Prop} {R : Read → Read → Prop} (carries : Carries P R)
  {imported : List String} {p p' : Progress}
include carries

theorem record_all (h : P p p') (cs : List Column) (e e' : Expr) (place : Lines)
    {reads reads' : List Read} (hreads : List.Forall₂ R reads reads') :
    P (cs.foldl (fun p c => p.record c e place reads) p)
      (cs.foldl (fun p c => p.record c e' place reads') p') := by
  induction cs generalizing p p' with
  | nil => exact h
  | cons c cs ih => exact ih (carries.record c e e' place h hreads)

theorem assign_pairs (h : P p p')
    (hcolumns : ∀ t t', G t t' → targetColumns imported t' = targetColumns imported t)
    (place : Lines) {readsOf readsOf' : List (Part × List Read)}
    (hreads : List.Forall₂ (SamePart (List.Forall₂ R)) readsOf readsOf')
    {pairs pairs' : List (Expr × Part × Expr)} (hpairs : List.Forall₂ (SamePair G E) pairs pairs') :
    P (pairs.foldl (assignPair imported place readsOf) p)
      (pairs'.foldl (assignPair imported place readsOf') p') := by
  refine List.rel_foldl (P := P) ?_ h hpairs
  intro p p' hp pair pair' hpair
  obtain ⟨t, part, v⟩ := pair
  obtain ⟨t', part', v'⟩ := pair'
  obtain ⟨ht, rfl, _⟩ := hpair
  rw [assignPair, assignPair, hcolumns t t' ht]
  exact carries.derive _ _ (carries.record_all hp _ v v' place (lookup_rel hreads part'))

/-- Taking in two related assignments keeps a relation that is kept by taking over the scans of the
related parts of their values, when the reads of these are related. -/
theorem assign (hG : Elementwise G) (hE : Elementwise E)
    (hcolumns : ∀ t t', G t t' → targetColumns imported t' = targetColumns imported t)
    (h : P p p') (hsize : p'.graph.assignments.size = p.graph.assignments.size)
    (habsorb : ∀ {q q'} (e e' : Expr) (i : Nat), P q q' → E e e' →
      P (q.absorb ((scan imported (some 0) e).within i))
        (q'.absorb ((scan imported (some 0) e').within i)))
    (hreads : ∀ e e', E e e' → List.Forall₂ R ((scan imported (some 0) e).reads.map p.resolve)
      ((scan imported (some 0) e').reads.map p'.resolve))
    (place : Lines) {targets targets' : List Expr} (htargets : List.Forall₂ G targets targets')
    {value value' : Expr} (hvalue : E value value') :
    P (Flow.assign imported place targets value p)
      (Flow.assign imported place targets' value' p') := by
  have hpairs := pair_targets_rel hG hE htargets hvalue
  -- The parts of the values are scanned, and referred to what there was before the statements.
  have htraces := map_parts_rel
    (S := fun t t' => (∀ {q q'}, P q q' → P (q.absorb t) (q'.absorb t')) ∧
      List.Forall₂ R (t.reads.map p.resolve) (t'.reads.map p'.resolve))
    (f := fun e => (scan imported (some 0) e).within p.graph.assignments.size)
    (g := fun e => (scan imported (some 0) e).within p.graph.assignments.size)
    (used_parts_rel hpairs) fun e e' he =>
      ⟨fun hq => habsorb e e' p.graph.assignments.size hq he, hreads e e' he⟩
  have hread := map_parts_rel (f := fun t => t.reads.map p.resolve)
    (g := fun t => t.reads.map p'.resolve) htraces fun t t' ht => ht.2
  have habsorbed := List.rel_foldl (P := P) (fun q q' hq a b hab => hab.rel.1 hq) h htraces
  unfold Flow.assign
  rw [hsize]
  exact carries.assign_pairs habsorbed hcolumns place hread hpairs

end Carries

end BacktestAudit.Flow
