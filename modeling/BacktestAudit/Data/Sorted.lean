/-!
Stable sorting by insertion. It recurses on the list alone, so that sorted lists compute by
themselves; in a total order it does what merge sort does.
-/
namespace BacktestAudit

variable {α : Type}

def insertBy (le : α → α → Bool) (a : α) : List α → List α
  | [] => [a]
  | b :: bs => if le a b then a :: b :: bs else b :: insertBy le a bs

/-- A list in order; elements that the order does not tell apart stay as they are. -/
def sortBy (le : α → α → Bool) : List α → List α
  | [] => []
  | a :: as => insertBy le a (sortBy le as)

theorem mem_insert_by {le : α → α → Bool} {a b : α} {l : List α} :
    b ∈ insertBy le a l ↔ b = a ∨ b ∈ l := by
  induction l with
  | nil => simp [insertBy]
  | cons c cs ih =>
    unfold insertBy
    split
    · rw [List.mem_cons]
    · rw [List.mem_cons, ih, List.mem_cons, or_left_comm]

theorem mem_sort_by {le : α → α → Bool} {b : α} {l : List α} : b ∈ sortBy le l ↔ b ∈ l := by
  induction l with
  | nil => rfl
  | cons c cs ih => rw [sortBy, mem_insert_by, ih, List.mem_cons]

theorem insert_by_split (le : α → α → Bool) (a : α) (l : List α) :
    ∃ l₁ l₂, l = l₁ ++ l₂ ∧ insertBy le a l = l₁ ++ a :: l₂ := by
  induction l with
  | nil => exact ⟨[], [], rfl, rfl⟩
  | cons b bs ih =>
    unfold insertBy
    split
    · exact ⟨[], b :: bs, rfl, rfl⟩
    · obtain ⟨l₁, l₂, hl, hinsert⟩ := ih
      exact ⟨b :: l₁, l₂, by rw [hl]; rfl, by rw [hinsert]; rfl⟩

theorem perm_sort_by (le : α → α → Bool) (as : List α) : (sortBy le as).Perm as := by
  induction as with
  | nil => exact .nil
  | cons a as ih =>
    obtain ⟨l₁, l₂, hsorted, hinsert⟩ := insert_by_split le a (sortBy le as)
    rw [sortBy, hinsert]
    exact List.perm_middle.trans ((hsorted ▸ ih).cons a)

theorem map_sort_by {β : Type} (le : β → β → Bool) (f : α → β) (as : List α) :
    (sortBy (fun a b => le (f a) (f b)) as).map f = sortBy le (as.map f) := by
  have hinsert : ∀ (a : α) (l : List α),
      (insertBy (fun a b => le (f a) (f b)) a l).map f = insertBy le (f a) (l.map f) := by
    intro a l
    induction l with
    | nil => rfl
    | cons b bs ih =>
      simp only [insertBy, List.map_cons]
      split
      · rfl
      · rw [List.map_cons, ih]
  induction as with
  | nil => rfl
  | cons a as ih => rw [sortBy, hinsert, ih, List.map_cons, sortBy]

theorem insert_by_append (le : α → α → Bool) (a : α) (l₁ l₂ : List α)
    (h₁ : ∀ b ∈ l₁, le a b = false) (h₂ : ∀ b ∈ l₂, le a b = true) :
    insertBy le a (l₁ ++ l₂) = l₁ ++ a :: l₂ := by
  induction l₁ with
  | nil =>
    cases l₂ with
    | nil => rfl
    | cons b bs => simp [insertBy, h₂ b (List.mem_cons_self ..)]
  | cons b bs ih =>
    have hb : le a b = false := h₁ b (List.mem_cons_self ..)
    have hbs := ih fun c hc => h₁ c (List.mem_cons_of_mem b hc)
    simp [insertBy, hb, hbs]

theorem sort_by_eq_merge_sort (le : α → α → Bool)
    (trans : ∀ a b c, le a b = true → le b c = true → le a c = true)
    (total : ∀ a b, (le a b || le b a) = true) (as : List α) :
    sortBy le as = as.mergeSort le := by
  induction as with
  | nil => simp [sortBy]
  | cons a as ih =>
    obtain ⟨l₁, l₂, hcons, has, hbefore⟩ := List.mergeSort_cons trans total a as
    have hsorted := List.pairwise_mergeSort trans total (a :: as)
    rw [hcons, List.pairwise_append, List.pairwise_cons] at hsorted
    rw [sortBy, ih, has, hcons]
    exact insert_by_append le a l₁ l₂ (fun b hb => by simpa using hbefore b hb)
      hsorted.2.1.1

/-! ## Sorted lists -/

section Ordered
variable {le : α → α → Bool} (trans : ∀ a b c, le a b = true → le b c = true → le a c = true)
  (total : ∀ a b, (le a b || le b a) = true)

include trans total in
theorem pairwise_sort_by (as : List α) : (sortBy le as).Pairwise (fun a b => le a b = true) := by
  rw [sort_by_eq_merge_sort le trans total]
  exact List.pairwise_mergeSort trans total as

include trans in
theorem filter_insert_by (p : α → Bool) (a : α) {l : List α}
    (hl : l.Pairwise (fun a b => le a b = true)) :
    (insertBy le a l).filter p = if p a then insertBy le a (l.filter p) else l.filter p := by
  induction l with
  | nil => cases hp : p a <;> simp [insertBy, hp]
  | cons b bs ih =>
    obtain ⟨hb, hbs⟩ := List.pairwise_cons.mp hl
    cases hab : le a b with
    | true =>
      -- What is left of the list still begins with something that `a` may stand before.
      have hfront : ∀ c ∈ (b :: bs).filter p, le a c = true := by
        intro c hc
        rcases List.mem_cons.mp (List.mem_filter.mp hc).1 with rfl | hc
        · exact hab
        · exact trans a b c hab (hb c hc)
      have hinsert := insert_by_append le a [] _ nofun hfront
      rw [List.nil_append, List.nil_append] at hinsert
      rw [hinsert, insertBy, if_pos hab, List.filter_cons]
    | false =>
      have hrest := ih hbs
      rw [insertBy, if_neg (Bool.eq_false_iff.mp hab), List.filter_cons, hrest, List.filter_cons]
      cases hpa : p a <;> cases hpb : p b <;> simp [insertBy, hab]

include trans total in
theorem sort_by_filter (p : α → Bool) (as : List α) :
    sortBy le (as.filter p) = (sortBy le as).filter p := by
  induction as with
  | nil => rfl
  | cons a as ih =>
    rw [sortBy, filter_insert_by trans p a (pairwise_sort_by trans total as), ← ih,
      List.filter_cons]
    cases p a <;> rfl

end Ordered

end BacktestAudit
