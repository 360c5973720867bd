import BacktestAudit.Data.Value

/-!
The tree that a configuration text builds up line by line. A key is a path of names. A table is
written in one section only, and what a value holds is not added to afterwards.
-/
namespace BacktestAudit.Data.Toml

inductive Node where
  | leaf (v : Value)
  /-- A table, with the section that wrote it if one did. -/
  | branch (writer : Option Nat) (entries : List (String × Node))
  /-- Tables of one name: the finished ones, and the one that is being written. -/
  | series (finished : List Value) (current : List (String × Node))

abbrev Nodes := List (String × Node)

mutual

def Node.value : Node → Value
  | .leaf v => v
  | .branch _ entries => .table (valuesOf entries)
  | .series finished current => .list (finished ++ [.table (valuesOf current)])

def valuesOf : Nodes → List (String × Value)
  | [] => []
  | (k, n) :: rest => (k, n.value) :: valuesOf rest

end

namespace Nodes

/-- Works on the table at a path. Tables that are missing are made, and of tables of one name the
last is meant; `enter` tells whether a table may be gone through, and who writes it then. -/
def at? (enter : Option (Option Nat) → Option (Option Nat)) (work : Nodes → Option Nodes) :
    List String → Nodes → Option Nodes
  | [], nodes => work nodes
  | name :: path, nodes =>
    match Entries.get? nodes name with
    | none => do
      let writer ← enter none
      return Entries.insert nodes name (.branch writer (← at? enter work path []))
    | some (.branch writer entries) => do
      let writer ← enter (some writer)
      return Entries.insert nodes name (.branch writer (← at? enter work path entries))
    | some (.series finished current) =>
      match enter (some (some 0)) with
      | none => none
      | some _ => do
        return Entries.insert nodes name (.series finished (← at? enter work path current))
    | some (.leaf _) => none

/-- Headers go through all tables and write none of them. -/
def passing : Option (Option Nat) → Option (Option Nat)
  | none => some none
  | some writer => some writer

/-- The path before a value goes through tables that nobody wrote, or that this section did. -/
def writing (section_ : Nat) : Option (Option Nat) → Option (Option Nat)
  | none | some none => some (some section_)
  | some (some writer) => if writer = section_ then some (some section_) else none

def lastName? (path : List String) : Option (List String × String) :=
  path.getLast?.map fun name => (path.dropLast, name)

def openTable? (section_ : Nat) (path : List String) (nodes : Nodes) : Option Nodes := do
  let (parent, name) ← lastName? path
  at? passing (fun entries =>
    match Entries.get? entries name with
    | none => some (Entries.insert entries name (.branch (some section_) []))
    | some (.branch none inner) => some (Entries.insert entries name (.branch (some section_) inner))
    | some _ => none) parent nodes

def addTable? (path : List String) (nodes : Nodes) : Option Nodes := do
  let (parent, name) ← lastName? path
  at? passing (fun entries =>
    match Entries.get? entries name with
    | none => some (Entries.insert entries name (.series [] []))
    | some (.series finished current) =>
      some (Entries.insert entries name (.series (finished ++ [.table (valuesOf current)]) []))
    | some _ => none) parent nodes

/-- Adds a value that is not there yet, at a path below the table of a header. -/
def addValue? (section_ : Nat) (header path : List String) (v : Value) (nodes : Nodes) :
    Option Nodes := do
  let (parent, name) ← lastName? path
  let add (entries : Nodes) : Option Nodes :=
    match Entries.get? entries name with
    | none => some (Entries.insert entries name (.leaf v))
    | some _ => none
  at? passing (at? (writing section_) add parent) header nodes

end Nodes

/-- A text under construction: its tables, the number of headers so far, and the last header. -/
structure Document where
  nodes : Nodes
  section_ : Nat
  header : List String

namespace Document

def empty : Document := ⟨[], 1, []⟩

def openTable? (d : Document) (path : List String) : Option Document :=
  (d.nodes.openTable? (d.section_ + 1) path).map fun nodes => ⟨nodes, d.section_ + 1, path⟩

def addTable? (d : Document) (path : List String) : Option Document :=
  (d.nodes.addTable? path).map fun nodes => ⟨nodes, d.section_ + 1, path⟩

def addValue? (d : Document) (path : List String) (v : Value) : Option Document :=
  (d.nodes.addValue? d.section_ d.header path v).map fun nodes => { d with nodes }

def entries (d : Document) : Entries Value := valuesOf d.nodes

end Document
end BacktestAudit.Data.Toml
