import BacktestAudit.Syntax.Literal
import BacktestAudit.Source.Span

/-!
Syntax trees of the analysed language.

Only what the analysis tells apart has a constructor of its own. Forms that it looks through (such
as comparisons and comprehensions) are one constructor with their parts in evaluation order of the
tree: a comprehension has its element first and then the target, the iterable and the conditions of
each clause; a conditional has its test first.
-/
namespace BacktestAudit.Syntax
open BacktestAudit.Source

inductive UnaryOp where
  | plus
  | minus
  | invert
  | not
  deriving DecidableEq, Repr

inductive BinaryOp where
  | add
  | sub
  | other
  deriving DecidableEq, Repr

/-- Whether a name is read, or bound (or deleted) where it stands. -/
inductive NameRole where
  | read
  | bind
  deriving DecidableEq, Repr

inductive Form where
  | boolean
  | binding
  | conditional
  /-- A chain of comparisons; tells whether the first of them is a membership test. -/
  | comparison (membership : Bool)
  | lambda
  | listComprehension
  | setComprehension
  | dictComprehension
  | generator
  | await
  | yield
  | formatted
  /-- A dictionary display in which other mappings are unpacked. -/
  | unpackedDict
  /-- A slice; tells which of its bounds are given. -/
  | slice (lower upper step : Bool)
  deriving DecidableEq, Repr

inductive Expr where
  | name (extent : Extent) (id : String) (role : NameRole)
  | constant (extent : Extent) (value : Literal)
  | member (extent : Extent) (value : Expr) (attr : String)
  | subscript (extent : Extent) (value index : Expr)
  /-- A call; the arguments in place come before those by name. -/
  | call (extent : Extent) (func : Expr) (arguments : List Expr)
  /-- An argument by name, or the unpacking of a mapping when it has no name. -/
  | keyword (extent : Extent) (name : Option String) (value : Expr)
  | starred (extent : Extent) (value : Expr)
  | tuple (extent : Extent) (elements : List Expr)
  | list (extent : Extent) (elements : List Expr)
  | set (extent : Extent) (elements : List Expr)
  | dict (extent : Extent) (keys values : List Expr)
  | unary (extent : Extent) (op : UnaryOp) (operand : Expr)
  | binary (extent : Extent) (op : BinaryOp) (left right : Expr)
  | composite (extent : Extent) (form : Form) (parts : List Expr)

namespace Expr

def extent : Expr → Extent
  | name e .. | constant e .. | member e .. | subscript e .. | call e .. | keyword e ..
  | starred e .. | tuple e .. | list e .. | set e .. | dict e .. | unary e .. | binary e ..
  | composite e .. => e

def span (e : Expr) : Span := e.extent.span

def lines (e : Expr) : Lines := e.extent.lines

/-- The expressions directly inside, in the order in which they are followed. -/
def children : Expr → List Expr
  | name .. | constant .. => []
  | member _ v _ | starred _ v | keyword _ _ v | unary _ _ v => [v]
  | subscript _ v i => [v, i]
  | binary _ _ l r => [l, r]
  | call _ f as => f :: as
  | tuple _ es | list _ es | set _ es | composite _ _ es => es
  | dict _ ks vs => ks ++ vs

def isKeyword : Expr → Bool
  | keyword .. => true
  | _ => false

def positional (arguments : List Expr) : List Expr :=
  arguments.filter (!·.isKeyword)

mutual

def depth : Expr → Nat
  | name .. | constant .. => 1
  | member _ v _ | starred _ v | keyword _ _ v | unary _ _ v => depth v + 1
  | subscript _ v i => max (depth v) (depth i) + 1
  | binary _ _ l r => max (depth l) (depth r) + 1
  | call _ f as => max (depth f) (depthOfAll as) + 1
  | tuple _ es | list _ es | set _ es | composite _ _ es => depthOfAll es + 1
  | dict _ ks vs => max (depthOfAll ks) (depthOfAll vs) + 1

def depthOfAll : List Expr → Nat
  | [] => 0
  | e :: es => max (depth e) (depthOfAll es)

end

end Expr

inductive StatementKind where
  | functionDef
  | asyncFunctionDef
  | classDef
  | returnStmt
  | deleteStmt
  | forLoop
  | asyncForLoop
  | whileLoop
  | ifStmt
  | withStmt
  | asyncWithStmt
  | matchStmt
  | raiseStmt
  | tryStmt
  | tryGroupStmt
  | assertStmt
  | globalStmt
  | nonlocalStmt
  | passStmt
  | breakStmt
  | continueStmt
  | importStmt
  | importFromStmt
  | assignment
  | typeHint
  | augmentation
  | expression
  deriving DecidableEq, Repr

/-- A statement. The parts of a compound statement are its header expressions (as statements that
evaluate them) and the statements of its blocks, in the order of the tree. -/
inductive Stmt where
  | assign (extent : Extent) (targets : List Expr) (value : Expr)
  | annotate (extent : Extent) (target typeHint : Expr) (value : Option Expr)
  | augment (extent : Extent) (target value : Expr)
  | evaluate (extent : Extent) (value : Expr)
  /-- An import, with the names that it defines. -/
  | imports (extent : Extent) (kind : StatementKind) (names : List String)
  /-- A function or a class. The signature holds the type hints and defaults of parameters, and the
  arguments by name of a class; the parts hold the body and then decorators and the like. -/
  | define (extent : Extent) (kind : StatementKind) (name : String) (signature : List Expr)
      (parts : List Stmt)
  | compound (extent : Extent) (kind : StatementKind) (parts : List Stmt)

namespace Stmt

def extent : Stmt → Extent
  | assign e .. | annotate e .. | augment e .. | evaluate e .. | imports e .. | define e ..
  | compound e .. => e

def kind : Stmt → StatementKind
  | assign .. => .assignment
  | annotate .. => .typeHint
  | augment .. => .augmentation
  | evaluate .. => .expression
  | imports _ k _ | define _ k .. | compound _ k _ => k

def ofExpr (e : Expr) : Stmt := .evaluate e.extent e

mutual

/-- The names that imports, functions and classes define, at any depth. -/
def definedNames : Stmt → List String
  | imports _ _ names => names
  | define _ _ name _ parts => name :: definedNamesOfAll parts
  | compound _ _ parts => definedNamesOfAll parts
  | _ => []

def definedNamesOfAll : List Stmt → List String
  | [] => []
  | s :: ss => definedNames s ++ definedNamesOfAll ss

end

mutual

def depth : Stmt → Nat
  | assign _ targets value => max (Expr.depthOfAll targets) value.depth + 1
  | annotate _ target typeHint value =>
    max target.depth (max typeHint.depth ((value.map Expr.depth).getD 0)) + 1
  | augment _ target value => max target.depth value.depth + 1
  | evaluate _ value => value.depth + 1
  | imports .. => 1
  | define _ _ _ signature parts => max (Expr.depthOfAll signature) (depthOfAll parts) + 1
  | compound _ _ parts => depthOfAll parts + 1

def depthOfAll : List Stmt → Nat
  | [] => 0
  | s :: ss => max (depth s) (depthOfAll ss)

end

end Stmt
end BacktestAudit.Syntax
