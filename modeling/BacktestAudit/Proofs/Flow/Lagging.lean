import BacktestAudit.Flow.Graph

/-!
Programs in which some of the reads are lagged by one bar. Reads are chosen by their places; what is
no column read of its own (a constant among the keys of a frame, the name of a function) stays as it
is. Lagging reads changes no literal, and makes nothing a dataset or a column that was none.
-/
namespace BacktestAudit.Flow
open BacktestAudit.Syntax BacktestAudit.Source
set_option autoImplicit false

/-! ## Chosen reads -/

/-- A set of nodes below a node, each told by the numbers of the children on the way to it. -/
abbrev Places : Type := List Nat → Bool

namespace Places

/-- The nodes of a set that are below a child. -/
def below (w : Places) (child : Nat) : Places := fun path => w (child :: path)

end Places

/-- An expression shifted by one bar, written where the expression stands. -/
def lagByOne (e : Expr) : Expr :=
  .call e.extent (.member e.extent e "shift") [.constant e.extent (.int 1)]

/-- A node that is lagged when it is chosen itself. -/
def lagIf (w : Places) (e : Expr) : Expr := if w [] then lagByOne e else e

mutual

/-- An expression with the chosen column reads in it lagged by one bar. -/
def lagReads (imported : List String) (w : Places) : Expr → Expr
  | .name e id role =>
    if role = .read ∧ id ∉ imported then lagIf w (.name e id role) else .name e id role
  | .constant e v => .constant e v
  | .member e value attr =>
    match value with
    | .name _ base _ =>
      if base ∈ imported ∨ attr ∈ indexers ∨ attr ∈ frameMembers then
        .member e (lagReads imported (w.below 0) value) attr
      else lagIf w (.member e value attr)
    | _ => .member e (lagReads imported (w.below 0) value) attr
  | .subscript e value index =>
    match columnOf? imported value index with
    | some _ =>
      if isIndexed value index then
        match index with
        | .tuple at_ parts =>
          lagIf w (.subscript e value (.tuple at_ (lagInit imported (w.below 1) 0 parts)))
        | _ => lagIf w (.subscript e value index)
      else lagIf w (.subscript e value index)
    | none =>
      match keyColumns? value index with
      | some _ => .subscript e value index
      | none =>
        .subscript e (lagReads imported (w.below 0) value) (lagReads imported (w.below 1) index)
  | .call e func arguments =>
    match func with
    | .member at_ value attr =>
      .call e (.member at_ (lagReads imported ((w.below 0).below 0) value) attr)
        (lagAll imported w 1 arguments)
    | .name at_ id role => .call e (.name at_ id role) (lagAll imported w 1 arguments)
    | f => .call e (lagReads imported (w.below 0) f) (lagAll imported w 1 arguments)
  | .keyword e name value => .keyword e name (lagReads imported (w.below 0) value)
  | .starred e value => .starred e (lagReads imported (w.below 0) value)
  | .unary e op value => .unary e op (lagReads imported (w.below 0) value)
  | .binary e op l r =>
    .binary e op (lagReads imported (w.below 0) l) (lagReads imported (w.below 1) r)
  | .tuple e es => .tuple e (lagAll imported w 0 es)
  | .list e es => .list e (lagAll imported w 0 es)
  | .set e es => .set e (lagAll imported w 0 es)
  | .composite e form es => .composite e form (lagAll imported w 0 es)
  | .dict e ks vs => .dict e (lagAll imported w 0 ks) (lagAll imported w ks.length vs)

def lagAll (imported : List String) (w : Places) (first : Nat) : List Expr → List Expr
  | [] => []
  | e :: es => lagReads imported (w.below first) e :: lagAll imported w (first + 1) es

def lagInit (imported : List String) (w : Places) (first : Nat) : List Expr → List Expr
  | e :: f :: es => lagReads imported (w.below first) e :: lagInit imported w (first + 1) (f :: es)
  | [e] => [e]
  | [] => []

end

mutual

/-- A statement with chosen column reads lagged in the expressions that are assigned. -/
def lagAssigned (imported : List String) (w : Places) : Stmt → Stmt
  | .assign e targets value => .assign e targets (lagReads imported (w.below 0) value)
  | .annotate e target typeHint value =>
    .annotate e target typeHint (value.map (lagReads imported (w.below 0)))
  | .augment e target value => .augment e target (lagReads imported (w.below 0) value)
  | .evaluate e value => .evaluate e value
  | .imports e kind names => .imports e kind names
  | .define e kind name signature parts =>
    .define e kind name signature (lagAssignedAll imported w 0 parts)
  | .compound e kind parts => .compound e kind (lagAssignedAll imported w 0 parts)

def lagAssignedAll (imported : List String) (w : Places) (first : Nat) : List Stmt → List Stmt
  | [] => []
  | s :: ss => lagAssigned imported (w.below first) s :: lagAssignedAll imported w (first + 1) ss

end

/-- A unit with the chosen column reads lagged; its names and places are what they were. -/
def lagUnit (w : Places) (unit : SourceUnit) : SourceUnit :=
  { unit with
    statements := lagAssignedAll (Stmt.definedNamesOfAll unit.statements) w 0 unit.statements }

/-! ## What a lagged expression is -/

variable {imported : List String}

theorem lag_if_cases (w : Places) (e : Expr) : lagIf w e = e ∨ lagIf w e = lagByOne e := by
  unfold lagIf
  split
  · exact .inr rfl
  · exact .inl rfl

/-- Only a name that is read and not imported is lagged. -/
theorem lag_name (w : Places) (e : Extent) (id : String) (role : NameRole) :
    lagReads imported w (.name e id role) = .name e id role ∨
      (role = .read ∧ id ∉ imported) ∧
        lagReads imported w (.name e id role) = lagByOne (.name e id role) := by
  unfold lagReads
  by_cases hread : role = .read ∧ id ∉ imported
  · rw [if_pos hread]
    rcases lag_if_cases w (.name e id role) with he | he
    · exact .inl he
    · exact .inr ⟨hread, he⟩
  · exact .inl (if_neg hread)

theorem lag_name_cases (w : Places) (e : Extent) (id : String) (role : NameRole) :
    lagReads imported w (.name e id role) = .name e id role ∨
      lagReads imported w (.name e id role) = lagByOne (.name e id role) := by
  rcases lag_name w e id role with h | ⟨_, h⟩
  · exact .inl h
  · exact .inr h

theorem lag_member_cases (w : Places) (e : Extent) (value : Expr) (attr : String) :
    ∃ v, (v = value ∨ v = lagReads imported (w.below 0) value) ∧
      (lagReads imported w (.member e value attr) = .member e v attr ∨
        lagReads imported w (.member e value attr) = lagByOne (.member e v attr)) := by
  cases value with
  | name at_ base role =>
    by_cases hframe : base ∈ imported ∨ attr ∈ indexers ∨ attr ∈ frameMembers
    · exact ⟨_, .inr rfl, .inl (if_pos hframe)⟩
    · refine ⟨.name at_ base role, .inl rfl, ?_⟩
      rw [lagReads, if_neg hframe]
      exact lag_if_cases w _
  | _ => exact ⟨_, .inr rfl, .inl rfl⟩

theorem lag_subscript_cases (w : Places) (e : Extent) (value index : Expr) :
    ∃ v i, lagReads imported w (.subscript e value index) = .subscript e v i ∨
      lagReads imported w (.subscript e value index) = lagByOne (.subscript e v i) := by
  unfold lagReads
  split
  · split
    · split
      · exact ⟨_, _, lag_if_cases w _⟩
      · exact ⟨_, _, lag_if_cases w _⟩
    · exact ⟨_, _, lag_if_cases w _⟩
  · split
    · exact ⟨_, _, .inl rfl⟩
    · exact ⟨_, _, .inl rfl⟩

/-- What a callee becomes: a method keeps its name, a function is no read. -/
inductive CalleeLagged (imported : List String) (w : Places) : Expr → Expr → Prop
  | method (at_ : Extent) (value : Expr) (attr : String) :
    CalleeLagged imported w (.member at_ value attr)
      (.member at_ (lagReads imported (w.below 0) value) attr)
  | function (at_ : Extent) (id : String) (role : NameRole) :
    CalleeLagged imported w (.name at_ id role) (.name at_ id role)
  | value (f : Expr) (hmember : ∀ at_ v attr, f ≠ .member at_ v attr)
    (hname : ∀ at_ id role, f ≠ .name at_ id role) :
    CalleeLagged imported w f (lagReads imported w f)

theorem lag_call_cases (w : Places) (e : Extent) (func : Expr) (arguments : List Expr) :
    ∃ func', CalleeLagged imported (w.below 0) func func' ∧
      lagReads imported w (.call e func arguments) =
        .call e func' (lagAll imported w 1 arguments) := by
  cases func with
  | name at_ id role => exact ⟨_, .function at_ id role, rfl⟩
  | member at_ value attr => exact ⟨_, .method at_ value attr, rfl⟩
  | _ => exact ⟨_, .value _ nofun nofun, rfl⟩

end BacktestAudit.Flow
