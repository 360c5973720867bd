import Mathlib.Data.List.Forall2

/-!
Outcomes of steps that may fail: what a run of steps gives, it gives by what each of them gives.
-/
namespace BacktestAudit.Data.Outcome
set_option autoImplicit false

variable {ε ζ α β : Type}

theorem bind_eq_ok {x : Except ε α} {f : α → Except ε β} {b : β} :
    (x >>= f) = .ok b ↔ ∃ a, x = .ok a ∧ f a = .ok b := by
  cases x with
  | error e => exact ⟨nofun, fun ⟨_, h, _⟩ => nomatch h⟩
  | ok a => exact ⟨fun h => ⟨a, rfl, h⟩, fun ⟨_, h, hf⟩ => by cases h; exact hf⟩

theorem bind_succeeds_iff {x : Except ε α} {f : α → Except ε β} :
    (∃ b, (x >>= f) = .ok b) ↔ ∃ a, x = .ok a ∧ ∃ b, f a = .ok b := by
  simp only [bind_eq_ok]
  exact ⟨fun ⟨b, a, hx, hf⟩ => ⟨a, hx, b, hf⟩, fun ⟨a, hx, b, hf⟩ => ⟨b, a, hx, hf⟩⟩

theorem bind_eq_error {x : Except ε α} {f : α → Except ε β} {e : ε} :
    (x >>= f) = .error e ↔ x = .error e ∨ ∃ a, x = .ok a ∧ f a = .error e := by
  cases x with
  | error e' =>
    refine ⟨fun h => .inl (congrArg Except.error (Except.error.inj h)), fun h => ?_⟩
    rcases h with h | ⟨_, h, _⟩
    · exact congrArg Except.error (Except.error.inj h)
    · nomatch h
  | ok a =>
    refine ⟨fun h => .inr ⟨a, rfl, h⟩, fun h => ?_⟩
    rcases h with h | ⟨_, h, hf⟩
    · nomatch h
    · cases h
      exact hf

/-- A step behind another one, when it makes no difference what the first one gives. -/
theorem bind_eq_error_iff {x : Except ε α} {f : α → Except ε β} {e : ε} {p : Prop}
    (h : ∀ a, f a = .error e ↔ p) :
    (x >>= f) = .error e ↔ x = .error e ∨ (∃ a, x = .ok a) ∧ p := by
  simp only [bind_eq_error, h, exists_and_right]

theorem map_eq_ok {x : Except ε α} {f : α → β} {b : β} :
    (f <$> x) = .ok b ↔ ∃ a, x = .ok a ∧ f a = b := by
  cases x with
  | error e => exact ⟨nofun, fun ⟨_, h, _⟩ => nomatch h⟩
  | ok a =>
    exact ⟨fun h => ⟨a, rfl, Except.ok.inj h⟩, fun ⟨_, h, hf⟩ => by cases h; exact congrArg _ hf⟩

theorem map_error_eq_ok {x : Except ε α} {f : ε → ζ} {a : α} :
    x.mapError f = .ok a ↔ x = .ok a := by
  cases x with
  | error e => exact ⟨nofun, nofun⟩
  | ok b =>
    exact ⟨fun h => congrArg _ (Except.ok.inj h), fun h => congrArg _ (Except.ok.inj h)⟩

theorem map_error_eq_error {x : Except ε α} {f : ε → ζ} {z : ζ} :
    x.mapError f = .error z ↔ ∃ e, x = .error e ∧ f e = z := by
  cases x with
  | error e =>
    exact ⟨fun h => ⟨e, rfl, Except.error.inj h⟩, fun ⟨_, h, hf⟩ => by cases h; exact congrArg _ hf⟩
  | ok a => exact ⟨nofun, fun ⟨_, h, _⟩ => nomatch h⟩

theorem to_option_eq_some {x : Except ε α} {a : α} : x.toOption = some a ↔ x = .ok a := by
  cases x <;> simp [Except.toOption]

theorem to_option_any_iff {x : Except ε α} {test : α → Bool} :
    x.toOption.any test = true ↔ ∃ a, x = .ok a ∧ test a = true := by
  cases x with
  | error e => exact ⟨nofun, fun ⟨_, h, _⟩ => nomatch h⟩
  | ok a => exact ⟨fun h => ⟨a, rfl, h⟩, fun ⟨_, h, htest⟩ => Except.ok.inj h ▸ htest⟩

/-! ## Failures of a kind -/

def FailsOnly (p : ε → Prop) (x : Except ε α) : Prop := ∀ e, x = .error e → p e

namespace FailsOnly

variable {p : ε → Prop} {x : Except ε α}

theorem ok {a : α} : FailsOnly p (.ok a : Except ε α) := nofun

theorem error {e : ε} (h : p e) : FailsOnly p (.error e : Except ε α) :=
  fun _ he => Except.error.inj he ▸ h

theorem bind {f : α → Except ε β} (hx : FailsOnly p x) (hf : ∀ a, x = .ok a → FailsOnly p (f a)) :
    FailsOnly p (x >>= f) := by
  intro e h
  rcases bind_eq_error.mp h with h | ⟨a, ha, h⟩
  · exact hx e h
  · exact hf a ha e h

theorem map {f : α → β} (hx : FailsOnly p x) : FailsOnly p (f <$> x) := by
  cases x with
  | error e => exact error (hx e rfl)
  | ok a => exact ok

theorem mapError {f : ε → ζ} {q : ζ → Prop} (hx : FailsOnly (fun e => q (f e)) x) :
    FailsOnly q (x.mapError f) := by
  cases x with
  | error e => exact error (hx e rfl)
  | ok a => exact ok

theorem mapM {f : α → Except ε β} {as : List α} (hf : ∀ a ∈ as, FailsOnly p (f a)) :
    FailsOnly p (as.mapM f) := by
  induction as with
  | nil => exact ok
  | cons a as ih =>
    obtain ⟨ha, has⟩ := List.forall_mem_cons.mp hf
    rw [List.mapM_cons]
    exact ha.bind fun _ _ => (ih has).bind fun _ _ => ok

end FailsOnly

/-! ## The first failure -/

/-- The first of some values that a step fails for, and how. -/
def FailsFirst (f : α → Except ε β) (as : List α) (e : ε) : Prop :=
  ∃ before a after, as = before ++ a :: after ∧ (∀ b ∈ before, ∃ x, f b = .ok x) ∧ f a = .error e

theorem not_fails_first_nil {f : α → Except ε β} {e : ε} : ¬ FailsFirst f [] e := by
  rintro ⟨before, a, after, h, _⟩
  exact List.append_ne_nil_of_right_ne_nil before (List.cons_ne_nil a after) h.symm

theorem fails_first_cons {f : α → Except ε β} {a : α} {as : List α} {e : ε} :
    FailsFirst f (a :: as) e ↔ f a = .error e ∨ (∃ x, f a = .ok x) ∧ FailsFirst f as e := by
  constructor
  · rintro ⟨before, b, after, h, hbefore, hb⟩
    cases before with
    | nil =>
      cases h
      exact .inl hb
    | cons c before =>
      cases h
      obtain ⟨hc, hrest⟩ := List.forall_mem_cons.mp hbefore
      exact .inr ⟨hc, before, b, after, rfl, hrest, hb⟩
  · rintro (h | ⟨hx, before, b, after, rfl, hbefore, hb⟩)
    · exact ⟨[], a, as, rfl, nofun, h⟩
    · exact ⟨a :: before, b, after, rfl, List.forall_mem_cons.mpr ⟨hx, hbefore⟩, hb⟩

theorem fails_first_append {f : α → Except ε β} {as bs : List α} {e : ε} :
    FailsFirst f (as ++ bs) e ↔
      FailsFirst f as e ∨ (∀ a ∈ as, ∃ x, f a = .ok x) ∧ FailsFirst f bs e := by
  induction as with
  | nil => simp [not_fails_first_nil]
  | cons a as ih =>
    rw [List.cons_append, fails_first_cons, ih, fails_first_cons, List.forall_mem_cons, and_or_left,
      or_assoc, and_assoc]

theorem map_m_eq_error {f : α → Except ε β} {as : List α} {e : ε} :
    as.mapM f = .error e ↔ FailsFirst f as e := by
  induction as with
  | nil => exact iff_of_false nofun not_fails_first_nil
  | cons a as ih =>
    rw [List.mapM_cons, bind_eq_error, fails_first_cons, ← ih, ← exists_and_right]
    refine or_congr_right (exists_congr fun x => and_congr_right fun _ => ?_)
    rw [bind_eq_error, or_iff_left]
    rintro ⟨_, _, h⟩
    nomatch h

theorem map_m_succeeds_iff {f : α → Except ε β} {as : List α} :
    (∃ bs, as.mapM f = .ok bs) ↔ ∀ a ∈ as, ∃ x, f a = .ok x := by
  induction as with
  | nil => exact ⟨fun _ => nofun, fun _ => ⟨[], rfl⟩⟩
  | cons a as ih =>
    rw [List.forall_mem_cons, ← ih, List.mapM_cons]
    simp only [bind_eq_ok]
    constructor
    · rintro ⟨_, x, hx, xs, hxs, _⟩
      exact ⟨⟨x, hx⟩, xs, hxs⟩
    · rintro ⟨⟨x, hx⟩, xs, hxs⟩
      exact ⟨x :: xs, x, hx, xs, hxs, rfl⟩

/-! ## Related lists -/

section Related
variable {R : α → β → Prop} {as : List α} {bs : List β}

theorem exists_right_of_mem (h : List.Forall₂ R as bs) {a : α} (ha : a ∈ as) :
    ∃ b ∈ bs, R a b := by
  induction h with
  | nil => nomatch ha
  | cons hhead _ ih =>
    rcases List.mem_cons.mp ha with rfl | ha
    · exact ⟨_, List.mem_cons_self .., hhead⟩
    · obtain ⟨b, hb, hab⟩ := ih ha
      exact ⟨b, List.mem_cons_of_mem _ hb, hab⟩

theorem exists_left_of_mem (h : List.Forall₂ R as bs) {b : β} (hb : b ∈ bs) :
    ∃ a ∈ as, R a b :=
  exists_right_of_mem (R := flip R) h.flip hb

theorem exists_related (h : ∀ a ∈ as, ∃ b, R a b) : ∃ bs, List.Forall₂ R as bs := by
  induction as with
  | nil => exact ⟨[], .nil⟩
  | cons a as ih =>
    obtain ⟨b, hab⟩ := h a (List.mem_cons_self ..)
    obtain ⟨bs, hbs⟩ := ih fun a ha => h a (List.mem_cons_of_mem _ ha)
    exact ⟨b :: bs, .cons hab hbs⟩

end Related

theorem mapM_eq_ok_iff {f : α → Except ε β} {as : List α} {bs : List β} :
    as.mapM f = .ok bs ↔ List.Forall₂ (fun a b => f a = .ok b) as bs := by
  induction as generalizing bs with
  | nil =>
    rw [List.mapM_nil, List.forall₂_nil_left_iff]
    constructor
    · intro h
      injection h with h
      exact h.symm
    · rintro rfl
      rfl
  | cons a as ih =>
    rw [List.mapM_cons]
    constructor
    · intro h
      cases ha : f a with
      | error e =>
        rw [ha] at h
        nomatch h
      | ok b =>
        cases has : as.mapM f with
        | error e =>
          rw [ha, has] at h
          nomatch h
        | ok bs' =>
          rw [ha, has] at h
          injection h with h
          rw [← h]
          exact .cons ha (ih.mp has)
    · intro h
      cases h with
      | cons ha has =>
        rw [ha, ih.mpr has]
        rfl

end BacktestAudit.Data.Outcome
