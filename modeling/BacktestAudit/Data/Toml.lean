import BacktestAudit.Data.Toml.Document
import BacktestAudit.Data.Toml.Scalar

/-!
Reading of configuration texts: lines of keys and values, under headers that open tables. A text
that breaks the rules of the format is refused as a whole.
-/
namespace BacktestAudit.Data.Toml

/-! ## Keys -/

def isBareKeyChar (c : Char) : Bool := c.isAlphanum || c = '-' || c = '_'

def readName? (cs : List Char) : Option (String × List Char) :=
  let bare := cs.takeWhile isBareKeyChar
  if bare.isEmpty then readOneLine? cs
  else some (String.ofList bare, cs.drop bare.length)

/-- A key: names with points between them, with the blanks behind it. -/
def readKey? : Nat → List Char → Option (List String × List Char)
  | 0, _ => none
  | fuel + 1, cs => do
    let (name, rest) ← readName? cs
    match skip rest with
    | '.' :: more =>
      let (path, rest) ← readKey? fuel (skip more)
      return (name :: path, rest)
    | rest => return ([name], rest)

def keyOf? (cs : List Char) : Option (List String × List Char) := readKey? (cs.length + 1) cs

/-! ## Values -/

/-- What is left behind a comment, when one stands at the front. -/
def skipComment? (cs : List Char) : Option (List Char) :=
  match cs with
  | '#' :: rest =>
    if (rest.takeWhile (· ≠ '\n')).any isForbidden then none
    else some (rest.dropWhile (· ≠ '\n'))
  | _ => some cs

/-- What is left behind blanks, line breaks and comments. -/
def skipFiller? : Nat → List Char → Option (List Char)
  | 0, cs => some cs
  | fuel + 1, cs =>
    match skipLines cs with
    | '#' :: rest => do skipFiller? fuel (← skipComment? ('#' :: rest))
    | rest => some rest

def filled? (cs : List Char) : Option (List Char) := skipFiller? (cs.length + 1) cs

mutual

/-- Reads a value; `fuel` bounds the number of steps. -/
def readValue : Nat → List Char → Except Fault (Value × List Char)
  | 0, _ => .error .malformed
  | fuel + 1, cs =>
    match cs with
    | '[' :: rest => do
      let rest ← orMalformed (filled? rest)
      let (items, rest) ← readItems fuel rest
      return (.list items, rest)
    | '\x7b' :: rest =>
      match skip rest with
      | '\x7d' :: rest => .ok (.table [], rest)
      | rest => readPairs fuel [] rest
    | cs => readScalar cs

def readItems : Nat → List Char → Except Fault (List Value × List Char)
  | 0, _ => .error .malformed
  | fuel + 1, cs =>
    match cs with
    | ']' :: rest => .ok ([], rest)
    | cs => do
      let (v, rest) ← readValue fuel cs
      match ← orMalformed (filled? rest) with
      | ']' :: rest => return ([v], rest)
      | ',' :: rest =>
        let rest ← orMalformed (filled? rest)
        let (vs, rest) ← readItems fuel rest
        return (v :: vs, rest)
      | _ => throw .malformed

def readPairs : Nat → Nodes → List Char → Except Fault (Value × List Char)
  | 0, _, _ => .error .malformed
  | fuel + 1, nodes, cs => do
    let (path, rest) ← orMalformed (keyOf? cs)
    match rest with
    | '=' :: rest =>
      let (v, rest) ← readValue fuel (skip rest)
      let nodes ← orMalformed (nodes.addValue? 1 [] path v)
      match skip rest with
      | '\x7d' :: rest => return (.table (valuesOf nodes), rest)
      | ',' :: rest => readPairs fuel nodes (skip rest)
      | _ => throw .malformed
    | _ => throw .malformed

end

def valueOf (cs : List Char) : Except Fault (Value × List Char) := readValue (2 * cs.length + 1) cs

/-! ## Lines -/

/-- The end of a header, after as many brackets as opened it. -/
def closed? (brackets : Nat) (cs : List Char) : Option (List Char) :=
  if cs.take brackets = List.replicate brackets ']' then some (cs.drop brackets) else none

/-- Reads what a line states: a header, a key with its value, or nothing. -/
def readStatement (d : Document) (cs : List Char) : Except Fault (Document × List Char) :=
  match cs with
  | '[' :: '[' :: rest => do
    let (path, rest) ← orMalformed (keyOf? (skip rest))
    return (← orMalformed (d.addTable? path), ← orMalformed (closed? 2 rest))
  | '[' :: rest => do
    let (path, rest) ← orMalformed (keyOf? (skip rest))
    return (← orMalformed (d.openTable? path), ← orMalformed (closed? 1 rest))
  | [] => .ok (d, [])
  | c :: _ =>
    if c = '\n' || c = '#' then .ok (d, cs)
    else do
      let (path, rest) ← orMalformed (keyOf? cs)
      match rest with
      | '=' :: rest =>
        let (v, rest) ← valueOf (skip rest)
        return (← orMalformed (d.addValue? path v), rest)
      | _ => throw .malformed

/-- Reads line by line; `fuel` bounds the number of lines. -/
def readLines : Nat → Document → List Char → Except Fault Document
  | 0, d, _ => .ok d
  | fuel + 1, d, cs => do
    let (d, rest) ← readStatement d (skip cs)
    match ← orMalformed (skipComment? (skip rest)) with
    | [] => return d
    | '\n' :: rest => readLines fuel d rest
    | _ => throw .malformed

def joinBreaks : List Char → List Char
  | '\r' :: '\n' :: rest => '\n' :: joinBreaks rest
  | c :: rest => c :: joinBreaks rest
  | [] => []

def parse (text : String) : Except Fault (Entries Value) :=
  let cs := joinBreaks text.toList
  Document.entries <$> readLines (cs.length + 1) .empty cs

end BacktestAudit.Data.Toml
