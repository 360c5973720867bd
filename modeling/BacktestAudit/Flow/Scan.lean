import BacktestAudit.Data.Sorted
import BacktestAudit.Flow.Column
import BacktestAudit.Flow.Lag

/-!
What happens in an expression: the columns that it reads and by how much each is shifted on the way,
the calls that it makes, and the subscripts that look ahead.

A scan depends on the expression, the shift that it stands under and the names that are imported
or defined, and on nothing else; what the reads refer to is found out later.
-/
namespace BacktestAudit.Flow
open BacktestAudit.Syntax BacktestAudit.Source

/-! ## What is recorded -/

/-- A shift by a number of periods; the amount may not be known. -/
abbrev Shift := Option Int

/-- A column that an expression reads, the shift that the read stands under, and its place. -/
structure Occurrence where
  column : Column
  shift : Shift
  extent : Extent

inductive ArgumentKey where
  | inPlace
  | named (name : String)
  | unpacked
  deriving DecidableEq, Repr

/-- A call with its literal arguments. `keywordSpans` covers the values of all named arguments and
`arguments` all arguments in the order of the text. -/
structure CallSite where
  method : String
  extent : Extent
  keywords : List (String × Literal)
  keywordSpans : List (String × Span)
  positional : List (Option Literal)
  receiverReads : List Column
  argReads : List Column
  /-- The methods called on the way to the receiver, the first of them first. -/
  receiverChain : List String
  /-- Whether a function is called and not a method of some data. -/
  isFunction : Bool
  /-- The place of the method's name in a call on a receiver. -/
  nameSpan : Option Span
  arguments : List (ArgumentKey × Span)
  /-- The assignment in whose expression the call stands. -/
  assignment : Option Nat

namespace CallSite

def span (c : CallSite) : Span := c.extent.span

def lines (c : CallSite) : Lines := c.extent.lines

/-- The data that the call works on. -/
def dataReads (c : CallSite) : List Column := if c.isFunction then c.argReads else c.receiverReads

def keyword? (c : CallSite) (name : String) : Option Literal := c.keywords.lookup name

end CallSite

structure ForwardIndex where
  extent : Extent
  step : Int
  assignment : Option Nat

/-- All that a scan records, each kind in its order. `leavesRange` tells that a literal that had to
be read is no double. -/
structure Trace where
  reads : List Occurrence
  calls : List CallSite
  forward : List ForwardIndex
  leavesRange : Bool

namespace Trace

def empty : Trace := ⟨[], [], [], false⟩

def append (a b : Trace) : Trace :=
  ⟨a.reads ++ b.reads, a.calls ++ b.calls, a.forward ++ b.forward, a.leavesRange || b.leavesRange⟩

instance : Append Trace := ⟨append⟩

def read (column : Column) (shift : Shift) (extent : Extent) : Trace :=
  { empty with reads := [⟨column, shift, extent⟩] }

def columns (t : Trace) : List Column := t.reads.map (·.column)

@[simp] theorem reads_append (a b : Trace) : (a ++ b).reads = a.reads ++ b.reads := rfl

@[simp] theorem calls_append (a b : Trace) : (a ++ b).calls = a.calls ++ b.calls := rfl

@[simp] theorem forward_append (a b : Trace) : (a ++ b).forward = a.forward ++ b.forward := rfl

@[simp] theorem reads_empty : empty.reads = [] := rfl

@[simp] theorem calls_empty : empty.calls = [] := rfl

@[simp] theorem forward_empty : empty.forward = [] := rfl

/-- Links what is recorded to the assignment in whose expression it stands. -/
def within (t : Trace) (assignment : Nat) : Trace :=
  { t with
    calls := t.calls.map fun c => { c with assignment := some assignment }
    forward := t.forward.map fun f => { f with assignment := some assignment } }

end Trace

/-! ## Shifts and steps -/

/-- The argument that gives the amount of a shift: the one named `periods`, else the first. -/
def shiftArgument? (arguments : List Expr) : Option Expr :=
  arguments.foldl
    (fun found a => match a with
      | .keyword _ (some "periods") v => some v
      | _ => found)
    (Expr.positional arguments).head?

/-- The amount of a shift; by default one period. -/
def shiftAmount (arguments : List Expr) : Shift :=
  match shiftArgument? arguments with
  | none => some 1
  | some a => a.literal?.bind Literal.int?

def addShift : Shift → Shift → Shift
  | some a, some b => some (a + b)
  | _, _ => none

def positionOf : Expr → Expr
  | .tuple _ (e :: _) => e
  | e => e

def stepBeside (constant other : Option Literal) : Option Int :=
  match constant.bind Literal.int? with
  | some n => if 0 < n && other.isNone then some n else none
  | none => none

/-- By how many steps a position such as `i + 1` looks ahead. -/
def forwardStep? (index : Expr) : Option Int :=
  match positionOf index with
  | .binary _ .add l r =>
    (stepBeside r.literal? l.literal?).or (stepBeside l.literal? r.literal?)
  | .binary _ .sub l r =>
    match r.literal?.bind Literal.int? with
    | some n => if n < 0 && l.literal?.isNone then some (-n) else none
    | none => none
  | _ => none

def positionLeavesRange (index : Expr) : Bool :=
  match positionOf index with
  | .binary _ _ l r => l.leavesRange || r.leavesRange
  | _ => false

/-! ## Calls -/

def calledName : Expr → String
  | .member _ _ attr => attr
  | .name _ id _ => id
  | _ => ""

/-- The methods called on the way down a receiver, the last of them first. -/
def chainDown : Expr → List String
  | .call _ (.member _ value attr) _ => attr :: chainDown value
  | .member _ value _ => chainDown value
  | .subscript _ value _ => chainDown value
  | _ => []

def receiver? : Expr → Option Expr
  | .member _ value _ => some value
  | _ => none

/-- A call is of a function when it has no receiver or its receiver is imported. -/
def isFunctionCall (imported : List String) (func : Expr) : Bool :=
  match func with
  | .member _ (.name _ id _) _ => id ∈ imported
  | .member .. => false
  | _ => true

/-- Sets a name, in its place if it is there. -/
def setName : List (String × α) → String → α → List (String × α)
  | [], k, v => [(k, v)]
  | (k, w) :: rest, key, v => if k = key then (k, v) :: rest else (k, w) :: setName rest key v

def keywordSpans (arguments : List Expr) : List (String × Span) :=
  arguments.foldl
    (fun acc a => match a with
      | .keyword _ (some name) v => setName acc name v.span
      | _ => acc) []

def literalKeywords (arguments : List Expr) : List (String × Literal) :=
  arguments.foldl
    (fun acc a => match a with
      | .keyword _ (some name) v =>
        match v.literal? with
        | some l => setName acc name l
        | none => acc
      | _ => acc) []

def argumentKey : Expr → ArgumentKey
  | .keyword _ (some name) _ => .named name
  | .keyword _ none _ => .unpacked
  | _ => .inPlace

def argumentSpans (arguments : List Expr) : List (ArgumentKey × Span) :=
  sortBy (fun a b => a.2.start ≤ b.2.start) (arguments.map fun a => (argumentKey a, a.span))

def argumentLeavesRange : Expr → Bool
  | .keyword _ (some _) v => v.leavesRange
  | .keyword _ none _ => false
  | a => a.leavesRange

def callSite (imported : List String) (extent : Extent) (func : Expr) (arguments : List Expr)
    (receiverReads argReads : List Column) : CallSite :=
  let method := calledName func
  let isFunction := isFunctionCall imported func
  let stop : Int := func.extent.stop
  { method, extent
    keywords := literalKeywords arguments
    keywordSpans := keywordSpans arguments
    positional := (Expr.positional arguments).map Expr.literal?
    receiverReads, argReads
    receiverChain := match receiver? func with
      | some r => (chainDown r).reverse
      | none => []
    isFunction
    nameSpan := if isFunction then none else some ⟨stop - method.utf8ByteSize, stop⟩
    arguments := argumentSpans arguments
    assignment := none }

/-! ## The scan -/

/-- The columns named by a list of keys in a subscript of a variable, if it is one. -/
def keyColumns? (value index : Expr) : Option (List (Column × Extent)) :=
  match value, index with
  | .name _ dataset _, .tuple _ keys | .name _ dataset _, .list _ keys =>
    if keys.isEmpty then none
    else keys.mapM fun k => k.textConstant?.map fun name => (⟨dataset, name⟩, k.extent)
  | _, _ => none

/-- The row selectors of an indexer: all parts of its subscript but the last. -/
def isIndexed (value index : Expr) : Bool :=
  match value, index with
  | .member _ _ attr, .tuple .. => attr ∈ indexers
  | _, _ => false

def forwardTrace (extent : Extent) (index : Expr) : Trace :=
  { Trace.empty with
    forward := (forwardStep? index).toList.map fun step => ⟨extent, step, none⟩
    leavesRange := positionLeavesRange index }

mutual

def scan (imported : List String) (shift : Shift) : Expr → Trace
  | .name e id role =>
    if role = .read ∧ id ∉ imported then .read (.ofVariable id) shift e else .empty
  | .constant .. => .empty
  | .member e value attr =>
    match value with
    | .name at_ base _ =>
      if base ∈ imported then .empty
      else if attr ∈ indexers ∨ attr ∈ frameMembers then .read (.ofVariable base) shift at_
      else .read ⟨base, attr⟩ shift e
    | _ => scan imported shift value
  | .subscript e value index =>
    forwardTrace e index ++
      match columnOf? imported value index with
      | some column =>
        .read column shift e ++
          if isIndexed value index then
            match index with
            | .tuple _ parts => scanInit imported parts
            | _ => .empty
          else .empty
      | none =>
        match keyColumns? value index with
        | some columns =>
          { Trace.empty with reads := columns.map fun (c, at_) => ⟨c, shift, at_⟩ }
        | none => scan imported shift value ++ scan imported (some 0) index
  | .call e func arguments =>
    let isShift := calledName func == "shift"
    let inner :=
      if isShift && !isFunctionCall imported func then addShift shift (shiftAmount arguments)
      else shift
    let receiver := match func with
      | .member _ value _ => scan imported inner value
      | .name .. => .empty
      | f => scan imported inner f
    let args := scanAll imported (if isShift then some 0 else shift) arguments
    receiver ++ args ++
      { Trace.empty with
        calls := [callSite imported e func arguments receiver.columns args.columns]
        leavesRange := arguments.any argumentLeavesRange }
  | .keyword _ _ value | .starred _ value | .unary _ _ value => scan imported shift value
  | .binary _ _ l r => scan imported shift l ++ scan imported shift r
  | .tuple _ es | .list _ es | .set _ es | .composite _ _ es => scanAll imported shift es
  | .dict _ ks vs => scanAll imported shift ks ++ scanAll imported shift vs

def scanAll (imported : List String) (shift : Shift) : List Expr → Trace
  | [] => .empty
  | e :: es => scan imported shift e ++ scanAll imported shift es

/-- Scans all expressions but the last, under no shift. -/
def scanInit (imported : List String) : List Expr → Trace
  | e :: f :: es => scan imported (some 0) e ++ scanInit imported (f :: es)
  | _ => .empty

end

end BacktestAudit.Flow
