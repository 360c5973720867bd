import BacktestAudit.Proofs.Syntax.Calls

/-!
The names in expressions. In a program every one of them is a word, so no dot stands in it. Most are
there for what they stand for; those of called functions are not.
-/
namespace BacktestAudit.Syntax
open BacktestAudit.Source
set_option autoImplicit false

namespace Expr

/-! ## Words -/

/-- Whether the names in an expression are words: not empty, and without a dot. -/
def Worded (e : Expr) : Prop :=
  ∀ x id role, (name x id role).Occurs e → id ≠ "" ∧ '.' ∉ id.toList

theorem Worded.child {e c : Expr} (h : e.Worded) (hc : c ∈ e.children) : c.Worded :=
  fun x id role hname => h x id role (.inside hc hname)

theorem Worded.of_occurs {e d : Expr} (h : e.Worded) (hd : d.Occurs e) : d.Worded := by
  induction hd with
  | here => exact h
  | inside hc _ ih => exact ih (h.child hc)

theorem Worded.name {x : Extent} {id : String} {role : NameRole} (h : (name x id role).Worded) :
    id ≠ "" ∧ '.' ∉ id.toList :=
  h x id role .here

theorem Shown.worded {text : String} {e : Expr} (h : e.Shown text) : e.Worded := by
  intro x id role hname
  obtain ⟨s, ⟨hne, t, ht, hkind, rfl⟩, hs⟩ := (h.of_occurs hname).fitted
  refine ⟨hne, fun hdot => ?_⟩
  have hword := ((hs t ht).word hkind).2 '.' hdot
  exact absurd hword (by decide)

/-! ## Names that values are taken from -/

mutual

/-- The names that are read in an expression, as often as they occur and in the order of the tree.
What a call is of counts among them unless it is a name itself. -/
def loads : Expr → List String
  | name _ id role => if role = .read then [id] else []
  | constant .. => []
  | member _ v _ | starred _ v | keyword _ _ v | unary _ _ v => loads v
  | subscript _ v i => loads v ++ loads i
  | binary _ _ l r => loads l ++ loads r
  | call _ (name ..) as => loadsOfAll as
  | call _ f as => loads f ++ loadsOfAll as
  | tuple _ es | list _ es | set _ es | composite _ _ es => loadsOfAll es
  | dict _ ks vs => loadsOfAll ks ++ loadsOfAll vs

def loadsOfAll : List Expr → List String
  | [] => []
  | e :: es => loads e ++ loadsOfAll es

end

theorem loads_of_all_append (es fs : List Expr) :
    loadsOfAll (es ++ fs) = loadsOfAll es ++ loadsOfAll fs := by
  induction es with
  | nil => rfl
  | cons e es ih => rw [List.cons_append, loadsOfAll, ih, ← List.append_assoc, loadsOfAll]

def calleeLoads : Expr → List String
  | name .. => []
  | f => f.loads

theorem loads_call (x : Extent) (f : Expr) (as : List Expr) :
    (call x f as).loads = f.calleeLoads ++ loadsOfAll as := by
  cases f <;> rfl

end Expr

theorem SourceUnit.expressions_worded {text name : String} {u : SourceUnit}
    (h : parse text name = .ok u) : ∀ e ∈ Stmt.expressionsOfAll u.statements, e.Worded :=
  fun e he => (expressions_shown h e he).worded

end BacktestAudit.Syntax
