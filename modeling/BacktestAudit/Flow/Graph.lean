import BacktestAudit.Flow.Scan
import BacktestAudit.Flow.Derivation
import BacktestAudit.Syntax.Unit

/-!
The dependency graph of a unit. Assignments are taken in the order of the text, those in blocks
included. Each read refers to the last assignment before the statement that wrote its column, or to
none, when the column comes from outside.
-/
namespace BacktestAudit.Flow
open BacktestAudit.Syntax BacktestAudit.Source

/-- A read with what it refers to. `shift` is the shift within the reading expression and `lag` the
net shift along the whole chain. -/
structure Read where
  column : Column
  lag : Lag
  /-- The assignment that the column comes from; none for a column from outside. -/
  source : Option Nat
  shift : Shift
  extent : Extent
  sourceIsConstant : Bool

namespace Read

def isExternal (r : Read) : Bool := r.source.isNone

def span (r : Read) : Span := r.extent.span

def lines (r : Read) : Lines := r.extent.lines

end Read

structure Assignment where
  index : Nat
  target : Column
  expression : Expr
  place : Lines
  reads : List Read
  lag : Lag
  isConstant : Bool

/-- The dependency graph: an edge leads from a reading assignment to the one that it reads, or to
none for what comes from outside. -/
structure Graph where
  unit : SourceUnit
  assignments : Array Assignment
  edges : List (Nat × Option Nat)
  calls : List CallSite
  forward : List ForwardIndex
  derivations : List Derivation
  /-- A literal that had to be read lies beyond the range of doubles. -/
  leavesRange : Bool

namespace Graph

def start (unit : SourceUnit) : Graph := ⟨unit, #[], [], [], [], [], false⟩

def producersOf (g : Graph) (index : Option Nat) : List (Option Nat) :=
  g.edges.filterMap fun (r, p) => if some r = index then some p else none

def readersOf (g : Graph) (index : Option Nat) : List Nat :=
  g.edges.filterMap fun (r, p) => if p = index then some r else none

def externalReads (g : Graph) : List Read :=
  g.assignments.toList.flatMap fun a => a.reads.filter Read.isExternal

def reads (g : Graph) : List (Assignment × Read) :=
  g.assignments.toList.flatMap fun a => a.reads.map (a, ·)

end Graph

/-! ## Columns written so far -/

structure Progress where
  graph : Graph
  live : List (Column × Nat)

namespace Progress

def lastWrite? (p : Progress) (column : Column) : Option Nat := p.live.lookup column

def resolve (p : Progress) (o : Occurrence) : Read :=
  let source := p.lastWrite? o.column
  let producer := source.bind (p.graph.assignments[·]?)
  { column := o.column
    lag := Lag.shifted ((producer.map (·.lag)).getD Lag.unknown) o.shift
    source
    shift := o.shift
    extent := o.extent
    sourceIsConstant := (producer.map (·.isConstant)).getD false }

/-- Takes over what a scan recorded, apart from its reads. -/
def absorb (p : Progress) (t : Trace) : Progress :=
  { p with graph := { p.graph with
      calls := p.graph.calls ++ t.calls
      forward := p.graph.forward ++ t.forward
      leavesRange := p.graph.leavesRange || t.leavesRange } }

def addEdge (edges : List (Nat × Option Nat)) (edge : Nat × Option Nat) : List (Nat × Option Nat) :=
  if edge ∈ edges then edges else edges ++ [edge]

/-- Records an assignment. A value that depends on constants alone is a constant, with no lag. -/
def record (p : Progress) (target : Column) (expression : Expr) (place : Lines)
    (reads : List Read) : Progress :=
  let index := p.graph.assignments.size
  let informative := reads.filter (!·.sourceIsConstant)
  let assignment : Assignment :=
    { index, target, expression, place, reads
      lag := if informative.isEmpty then some 0 else Lag.combine (informative.map (·.lag))
      isConstant := informative.isEmpty }
  { graph := { p.graph with
      assignments := p.graph.assignments.push assignment
      edges := reads.foldl (fun es r => addEdge es (index, r.source)) p.graph.edges }
    live := (target, index) :: p.live }

end Progress

/-! ## Targets -/

mutual

def targetColumns (imported : List String) : Expr → List Column
  | .tuple _ es | .list _ es => targetColumnsOfAll imported es
  | .starred _ e => targetColumns imported e
  | .name _ id _ => [.ofVariable id]
  | .member _ value attr => ((alias? value).map fun b => Column.mk b attr).toList
  | .subscript _ value index => (columnOf? imported value index).toList
  | _ => []

def targetColumnsOfAll (imported : List String) : List Expr → List Column
  | [] => []
  | e :: es => targetColumns imported e ++ targetColumnsOfAll imported es

end

def elements? : Expr → Option (List Expr)
  | .tuple _ es | .list _ es => some es
  | _ => none

/-- The part of an assigned value that a target takes. -/
inductive Part where
  | whole
  | element (index : Nat)
  deriving DecidableEq, Repr

/-- Targets with the part of the value that each takes: a display is taken apart when the value is a
display of the same length. -/
def pairTargets (targets : List Expr) (value : Expr) : List (Expr × Part × Expr) :=
  targets.flatMap fun t =>
    match elements? t, elements? value with
    | some ts, some vs =>
      if ts.length = vs.length then
        (ts.zip vs).mapIdx fun i (t, v) => (t, .element i, v)
      else [(t, .whole, value)]
    | _, _ => [(t, .whole, value)]

def usedParts (pairs : List (Expr × Part × Expr)) : List (Part × Expr) :=
  pairs.foldl (fun acc (_, part, e) => if acc.any (·.1 = part) then acc else acc ++ [(part, e)]) []

/-! ## Statements -/

def evaluate (imported : List String) (p : Progress) (e : Expr) : Progress :=
  p.absorb (scan imported (some 0) e)

def assignPair (imported : List String) (place : Lines) (readsOf : List (Part × List Read))
    (p : Progress) (pair : Expr × Part × Expr) : Progress :=
  let (target, part, value) := pair
  let reads := (readsOf.lookup part).getD []
  let p := (targetColumns imported target).foldl (fun p c => p.record c value place reads) p
  { p with graph := { p.graph with
      derivations := p.graph.derivations ++ (derivation? target value place).toList } }

/-- An assignment: every part is read as things are before the statement. -/
def assign (imported : List String) (place : Lines) (targets : List Expr) (value : Expr)
    (p : Progress) : Progress :=
  let pairs := pairTargets targets value
  let index := p.graph.assignments.size
  let traces := (usedParts pairs).map fun (part, e) =>
    (part, (scan imported (some 0) e).within index)
  let readsOf := traces.map fun (part, t) => (part, t.reads.map p.resolve)
  let p := traces.foldl (fun p (_, t) => p.absorb t) p
  pairs.foldl (assignPair imported place readsOf) p

/-- An augmented assignment also reads what it writes. -/
def augment (imported : List String) (place : Lines) (target value : Expr) (p : Progress) :
    Progress :=
  let t := (scan imported (some 0) value).within p.graph.assignments.size
  let reads := t.reads.map p.resolve
  let p := p.absorb t
  ((targetColumns imported target).foldl
    (fun (p, reads) c =>
      let reads := reads ++ [p.resolve ⟨c, some 0, target.extent⟩]
      (p.record c value place reads, reads))
    (p, reads)).1

mutual

def visit (imported : List String) (p : Progress) : Stmt → Progress
  | .assign e targets value => assign imported e.lines targets value p
  | .annotate e target _ value =>
    match value with
    | some v => assign imported e.lines [target] v p
    | none => p
  | .augment e target value => augment imported e.lines target value p
  | .evaluate _ value => evaluate imported p value
  | .imports .. => p
  | .define _ _ _ _ parts => visitAll imported p parts
  | .compound _ _ parts => visitAll imported p parts

def visitAll (imported : List String) (p : Progress) : List Stmt → Progress
  | [] => p
  | s :: ss => visitAll imported (visit imported p s) ss

end

namespace Graph

def ofUnit (unit : SourceUnit) : Graph :=
  let imported := Stmt.definedNamesOfAll unit.statements
  (visitAll imported ⟨start unit, []⟩ unit.statements).graph

/-- The dependency graph, unless a literal in the unit lies beyond the range of doubles. -/
def build? (unit : SourceUnit) : Option Graph :=
  let g := ofUnit unit
  if g.leavesRange then none else some g

end Graph
end BacktestAudit.Flow
