import BacktestAudit.Syntax.Tree

/-!
What programs assign to. In every program that parses an assignment has a target, and what an
augmented assignment writes is a single name, member or subscript.
-/
namespace BacktestAudit.Syntax
open BacktestAudit.Source
set_option autoImplicit false

/-- A target that is no display: it writes one column at most. -/
def Expr.isSingleTarget : Expr → Bool
  | .name .. | .member .. | .subscript .. => true
  | _ => false

namespace Stmt

mutual

/-- Whether the assignments in a statement, at any depth, have targets, and the augmented ones
single targets. -/
def isProper : Stmt → Bool
  | assign _ targets _ => !targets.isEmpty
  | augment _ target _ => target.isSingleTarget
  | define _ _ _ _ parts | compound _ _ parts => areProper parts
  | annotate .. | evaluate .. | imports .. => true

def areProper : List Stmt → Bool
  | [] => true
  | s :: ss => isProper s && areProper ss

end

@[simp] theorem are_proper_nil : areProper [] = true := rfl

@[simp] theorem are_proper_cons (s : Stmt) (ss : List Stmt) :
    areProper (s :: ss) = (isProper s && areProper ss) := rfl

@[simp] theorem is_proper_of_expr (e : Expr) : isProper (ofExpr e) = true := rfl

@[simp] theorem is_proper_compound (x : Extent) (kind : StatementKind) (parts : List Stmt) :
    isProper (compound x kind parts) = areProper parts := by
  rw [isProper]

@[simp] theorem is_proper_define (x : Extent) (kind : StatementKind) (name : String)
    (signature : List Expr) (parts : List Stmt) :
    isProper (define x kind name signature parts) = areProper parts := by
  rw [isProper]

@[simp] theorem are_proper_append (ss rest : List Stmt) :
    areProper (ss ++ rest) =
      (areProper ss && areProper rest) := by
  induction ss with
  | nil => rfl
  | cons s ss ih => rw [List.cons_append, areProper, ih, areProper, Bool.and_assoc]

@[simp] theorem are_proper_map (es : List Expr) :
    areProper (es.map ofExpr) = true := by
  induction es with
  | nil => rfl
  | cons e es ih => rw [List.map_cons, areProper, ih]; rfl

end Stmt

end BacktestAudit.Syntax
