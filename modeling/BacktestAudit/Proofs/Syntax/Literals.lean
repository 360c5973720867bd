import BacktestAudit.Data.Outcome
import BacktestAudit.Syntax.Constant

/-!
How literals are spelled. A constant stands for itself and a number may have a sign; what is made of
other literals is neither an integer nor a truth value.
-/
namespace BacktestAudit.Syntax
set_option autoImplicit false

/-- A number, truth values apart. -/
def Literal.isNumber : Literal → Bool
  | .int _ | .float _ | .complex _ _ => true
  | _ => false

/-- A literal that may be made of others. -/
def Literal.isMade : Literal → Bool
  | .complex _ _ | .tuple _ | .list _ | .set _ | .dict _ => true
  | _ => false

namespace Expr

theorem number_spelled {e : Expr} {l : Literal} (h : e.number = .ok l) :
    (∃ x v, e = .constant x v) ∧ l.isNumber = true := by
  unfold number at h
  split at h
  · next x _ =>
    cases h
    exact ⟨⟨x, _, rfl⟩, rfl⟩
  · next x _ =>
    cases h
    exact ⟨⟨x, _, rfl⟩, rfl⟩
  · next x _ _ =>
    cases h
    exact ⟨⟨x, _, rfl⟩, rfl⟩
  · cases h

theorem is_number_negate (l : Literal) : (negate l).isNumber = l.isNumber := by
  cases l <;> rfl

theorem signed_number_spelled {x : Source.Extent} {op : UnaryOp} {e : Expr} {l : Literal}
    (h : (Expr.unary x op e).signedNumber = .ok l) :
    (∃ y v, e = .constant y v) ∧ l.isNumber = true := by
  cases op with
  | plus => exact number_spelled h
  | minus =>
    obtain ⟨m, hm, rfl⟩ := Data.Outcome.map_eq_ok.mp h
    obtain ⟨he, hnumber⟩ := number_spelled hm
    exact ⟨he, (is_number_negate m).trans hnumber⟩
  | _ => cases h

theorem complex_sum_made {op : BinaryOp} {a b l : Literal} (h : complexSum op a b = .ok l) :
    l.isMade = true := by
  simp only [complexSum] at h
  split at h
  · split at h
    · split at h <;> cases h <;> rfl
    · cases h
  · split at h <;> cases h <;> rfl
  · cases h

theorem made_of_map {α : Type} {r : Except NotLiteral α} {f : α → Literal} {l : Literal}
    (h : r.map f = .ok l) (hf : ∀ a, (f a).isMade = true) : l.isMade = true := by
  obtain ⟨a, _, rfl⟩ := Data.Outcome.map_eq_ok.mp h
  exact hf a

theorem literal_spelled {e : Expr} {l : Literal} (h : e.literal = .ok l) :
    (∃ x, e = .constant x l) ∨
      ((∃ x op y v, e = .unary x op (.constant y v)) ∧ l.isNumber = true) ∨ l.isMade = true := by
  unfold literal at h
  split at h
  · next x v =>
    cases h
    exact .inl ⟨x, rfl⟩
  · exact .inr (.inr (made_of_map h fun _ => rfl))
  · exact .inr (.inr (made_of_map h fun _ => rfl))
  · exact .inr (.inr (made_of_map h fun _ => rfl))
  · cases h
    exact .inr (.inr rfl)
  · exact .inr (.inr (made_of_map h fun _ => rfl))
  · split at h
    · cases h
    · obtain ⟨a, _, hrest⟩ := Data.Outcome.bind_eq_ok.mp h
      obtain ⟨b, _, hsum⟩ := Data.Outcome.bind_eq_ok.mp hrest
      exact .inr (.inr (complex_sum_made hsum))
  · next x op operand =>
    obtain ⟨⟨y, v, hoperand⟩, hnumber⟩ := signed_number_spelled h
    exact .inr (.inl ⟨⟨x, op, y, v, congrArg (Expr.unary x op) hoperand⟩, hnumber⟩)
  · cases h

theorem constant_of_bool {e : Expr} {b : Bool} (h : e.literal? = some (.bool b)) :
    ∃ x, e = .constant x (.bool b) := by
  obtain hconstant | ⟨_, hnumber⟩ | hmade := literal_spelled (Data.Outcome.to_option_eq_some.mp h)
  · exact hconstant
  · cases hnumber
  · cases hmade

theorem shape_of_int {e : Expr} {n : Int} (h : e.literal? = some (.int n)) :
    (∃ x v, e = .constant x v) ∨ ∃ x op y v, e = .unary x op (.constant y v) := by
  obtain ⟨x, hconstant⟩ | ⟨hsigned, _⟩ | hmade :=
    literal_spelled (Data.Outcome.to_option_eq_some.mp h)
  · exact .inl ⟨x, _, hconstant⟩
  · exact .inr hsigned
  · cases hmade

end Expr
end BacktestAudit.Syntax
