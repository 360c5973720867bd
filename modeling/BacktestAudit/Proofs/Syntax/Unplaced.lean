import BacktestAudit.Syntax.Constant

/-!
Programs apart from their places. Where an expression stands makes no difference to what it is: not
to the literal that it stands for, nor to how an argument is passed. Of a statement the lines are
kept, since reports tell them.
-/
namespace BacktestAudit.Source.Extent
set_option autoImplicit false

/-- The one place of all that is told without its place. -/
def nowhere : Extent := ⟨0, 0, 0, 0⟩

def onLines (x : Extent) : Extent := ⟨0, 0, x.firstLine, x.lastLine⟩

end BacktestAudit.Source.Extent

namespace BacktestAudit.Syntax
open BacktestAudit.Source BacktestAudit.Source.Extent
set_option autoImplicit false

namespace Expr

mutual

/-- An expression without the places of its parts. -/
def unplaced : Expr → Expr
  | .name _ id role => .name nowhere id role
  | .constant _ v => .constant nowhere v
  | .member _ value attr => .member nowhere (unplaced value) attr
  | .subscript _ value index => .subscript nowhere (unplaced value) (unplaced index)
  | .call _ func arguments => .call nowhere (unplaced func) (unplacedAll arguments)
  | .keyword _ id value => .keyword nowhere id (unplaced value)
  | .starred _ value => .starred nowhere (unplaced value)
  | .tuple _ es => .tuple nowhere (unplacedAll es)
  | .list _ es => .list nowhere (unplacedAll es)
  | .set _ es => .set nowhere (unplacedAll es)
  | .dict _ ks vs => .dict nowhere (unplacedAll ks) (unplacedAll vs)
  | .unary _ op operand => .unary nowhere op (unplaced operand)
  | .binary _ op l r => .binary nowhere op (unplaced l) (unplaced r)
  | .composite _ form parts => .composite nowhere form (unplacedAll parts)

def unplacedAll : List Expr → List Expr
  | [] => []
  | e :: es => unplaced e :: unplacedAll es

end

theorem unplaced_all_eq (es : List Expr) : unplacedAll es = es.map unplaced := by
  induction es with
  | nil => rfl
  | cons e es ih => rw [unplacedAll, List.map_cons, ih]

/-! ## Literals -/

@[simp] theorem is_keyword_unplaced (e : Expr) : e.unplaced.isKeyword = e.isKeyword := by
  cases e <;> rfl

@[simp] theorem text_constant_unplaced (e : Expr) :
    e.unplaced.textConstant? = e.textConstant? := by
  cases e with
  | constant x v => cases v <;> rfl
  | _ => rfl

@[simp] theorem number_unplaced (e : Expr) : e.unplaced.number = e.number := by
  cases e with
  | constant x v => cases v <;> rfl
  | _ => rfl

@[simp] theorem signed_number_unplaced (e : Expr) :
    e.unplaced.signedNumber = e.signedNumber := by
  cases e with
  | unary x op operand =>
    cases op with
    | plus => exact number_unplaced operand
    | minus => exact congrArg (·.map negate) (number_unplaced operand)
    | invert => rfl
    | not => rfl
  | constant x v => exact number_unplaced (.constant x v)
  | _ => rfl

theorem literal_function {id : String} (h : id ≠ "set") {x y : Extent} {role : NameRole}
    {arguments : List Expr} : (call x (name y id role) arguments).literal = .error .dynamic := by
  unfold literal
  split <;> simp_all

mutual

@[simp] theorem literal_unplaced (e : Expr) : e.unplaced.literal = e.literal := by
  cases e with
  | call x func arguments =>
    cases func with
    | name y id role =>
      by_cases hset : id = "set"
      · subst hset
        cases arguments <;> rfl
      · rw [unplaced, unplaced, literal_function hset, literal_function hset]
    | _ => rfl
  | tuple x es => rw [unplaced, literal, literal, literals_unplaced es]
  | list x es => rw [unplaced, literal, literal, literals_unplaced es]
  | set x es => rw [unplaced, literal, literal, literals_unplaced es]
  | dict x ks vs => rw [unplaced, literal, literal, literals_unplaced ks, literals_unplaced vs]
  | unary x op operand => exact signed_number_unplaced (.unary x op operand)
  | binary x op l r => rw [unplaced, literal, literal, signed_number_unplaced, number_unplaced]
  | _ => rfl

theorem literals_unplaced (es : List Expr) : literals (unplacedAll es) = literals es := by
  cases es with
  | nil => rfl
  | cons e es => rw [unplacedAll, literals, literals, literal_unplaced e, literals_unplaced es]

end

theorem literal_unplaced? (e : Expr) : e.unplaced.literal? = e.literal? := by
  rw [literal?, literal?, literal_unplaced]

/-! ## Arguments -/

theorem positional_unplaced (arguments : List Expr) :
    positional (arguments.map unplaced) = (positional arguments).map unplaced := by
  simp only [positional, List.filter_map, Function.comp_def, is_keyword_unplaced]

end Expr

/-- A statement that is no block, with its lines but without the places of its expressions. -/
def Stmt.unplaced : Stmt → Stmt
  | .assign x targets value => .assign x.onLines (targets.map Expr.unplaced) value.unplaced
  | .annotate x target typeHint value =>
    .annotate x.onLines target.unplaced typeHint.unplaced (value.map Expr.unplaced)
  | .augment x target value => .augment x.onLines target.unplaced value.unplaced
  | .evaluate x value => .evaluate x.onLines value.unplaced
  | .imports x kind names => .imports x.onLines kind names
  | s => s

end BacktestAudit.Syntax
