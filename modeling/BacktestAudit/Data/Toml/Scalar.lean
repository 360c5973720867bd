import BacktestAudit.Data.Value
import BacktestAudit.Decimal.Notation
import BacktestAudit.Syntax.StringLiteral

/-!
Values of a configuration text that hold no others: text in quotes, numbers, days and times. Each
reader gives back what is left behind the value.
-/
namespace BacktestAudit.Data.Toml
open BacktestAudit.Decimal BacktestAudit.Syntax

/-- Why a text is not read: it breaks the rules of the format, or an integer has more digits than are
read. -/
inductive Fault where
  | malformed
  | tooLong
  deriving DecidableEq, Repr

def orMalformed (r : Option α) : Except Fault α := r.elim (.error .malformed) .ok

def isSpace (c : Char) : Bool := c = ' ' || c = '\t'

def isSpaceOrBreak (c : Char) : Bool := isSpace c || c = '\n'

def skip (cs : List Char) : List Char := cs.dropWhile isSpace

def skipLines (cs : List Char) : List Char := cs.dropWhile isSpaceOrBreak

/-- Control characters other than the tab stand in no text. -/
def isForbidden (c : Char) : Bool := (c.toNat < 32 || c.toNat = 127) && c ≠ '\t'

/-- In text of several lines they do not stand either, line breaks aside. -/
def isForbiddenInLines (c : Char) : Bool := isForbidden c && c ≠ '\n'

/-! ## Text as it stands -/

def readLiteral? (cs : List Char) : Option (String × List Char) :=
  let body := cs.takeWhile (· ≠ '\'')
  match cs.dropWhile (· ≠ '\'') with
  | _ :: rest => if body.any isForbidden then none else some (String.ofList body, rest)
  | [] => none

def splitAtThree? (quote : Char) : List Char → Option (List Char × List Char)
  | [] => none
  | c :: rest =>
    if c = quote ∧ rest.take 2 = [quote, quote] then some ([], rest.drop 2)
    else (splitAtThree? quote rest).map fun (body, left) => (c :: body, left)

/-- Up to two quotes behind the closing ones belong to the text. -/
def withExtraQuotes (quote : Char) (s : String) (cs : List Char) : String × List Char :=
  let extra := (cs.take 2).takeWhile (· = quote)
  (s ++ String.ofList extra, cs.drop extra.length)

def dropFirstBreak (cs : List Char) : List Char :=
  match cs with
  | '\n' :: rest => rest
  | _ => cs

def readLiteralLines? (cs : List Char) : Option (String × List Char) := do
  let (body, rest) ← splitAtThree? '\'' (dropFirstBreak cs)
  if body.any isForbiddenInLines then none
  else return withExtraQuotes '\'' (String.ofList body) rest

/-! ## Text with escapes -/

def escapes : List (Char × Char) :=
  [('b', '\x08'), ('t', '\t'), ('n', '\n'), ('f', '\x0c'), ('r', '\r'), ('"', '"'), ('\\', '\\')]

def charOf? (code : Nat) : Option Char :=
  if h : code.isValidChar then some (Char.ofNatAux code h) else none

def readCode? (digits : Nat) (cs : List Char) : Option (List Char × List Char) := do
  let c ← charOf? (← StringLiteral.hexDigits? digits cs)
  return ([c], cs.drop digits)

/-- What an escape stands for; in text of several lines it may also leave out a line break with the
blanks around it. -/
def readEscape? (isLines : Bool) (cs : List Char) : Option (List Char × List Char) :=
  match cs with
  | [] => none
  | c :: rest =>
    if isLines && isSpaceOrBreak c then
      match skip cs with
      | '\n' :: more => some ([], skipLines more)
      | [] => some ([], [])
      | _ => none
    else if c = 'u' then readCode? 4 rest
    else if c = 'U' then readCode? 8 rest
    else (escapes.lookup c).map fun e => ([e], rest)

/-- Text up to its closing quotes; `fuel` bounds the number of characters. -/
def readBasic? (isLines : Bool) : Nat → List Char → List Char → Option (String × List Char)
  | 0, _, _ => none
  | _, _, [] => none
  | fuel + 1, acc, c :: rest =>
    if c = '"' then
      if !isLines then some (String.ofList acc.reverse, rest)
      else if rest.take 2 = ['"', '"'] then
        some (withExtraQuotes '"' (String.ofList acc.reverse) (rest.drop 2))
      else readBasic? isLines fuel (c :: acc) rest
    else if c = '\\' then do
      let (out, rest) ← readEscape? isLines rest
      readBasic? isLines fuel (out.reverse ++ acc) rest
    else if isForbidden c && !(isLines && c = '\n') then none
    else readBasic? isLines fuel (c :: acc) rest

def readOneLine? (cs : List Char) : Option (String × List Char) :=
  match cs with
  | '\'' :: rest => readLiteral? rest
  | '"' :: rest => readBasic? false (rest.length + 1) [] rest
  | _ => none

def readText? (cs : List Char) : Option (String × List Char) :=
  match cs with
  | '\'' :: '\'' :: '\'' :: rest => readLiteralLines? rest
  | '"' :: '"' :: '"' :: rest => readBasic? true (rest.length + 1) [] (dropFirstBreak rest)
  | cs => readOneLine? cs

/-! ## Numbers -/

/-- Digits with single underscores between them. -/
def groupedDigits (isDigit : Char → Bool) : List Char → List Char × List Char
  | c :: '_' :: d :: rest =>
    if isDigit c && isDigit d then
      let (ds, left) := groupedDigits isDigit (d :: rest)
      (c :: ds, left)
    else if isDigit c then ([c], '_' :: d :: rest)
    else ([], c :: '_' :: d :: rest)
  | c :: rest =>
    if isDigit c then
      let (ds, left) := groupedDigits isDigit rest
      (c :: ds, left)
    else ([], c :: rest)
  | [] => ([], [])

def isHexDigit (c : Char) : Bool := c.isDigit || ('a' ≤ c.toLower && c.toLower ≤ 'f')

def bases : List (Char × Nat × (Char → Bool)) :=
  [('x', 16, isHexDigit), ('b', 2, fun c => c = '0' || c = '1'),
   ('o', 8, fun c => '0' ≤ c && c ≤ '7')]

def readBased? (cs : List Char) : Option (Value × List Char) :=
  match cs with
  | '0' :: mark :: rest => do
    let (base, isDigit) ← bases.lookup mark
    let (digits, left) := groupedDigits isDigit rest
    if digits.isEmpty then none else return (.int (valueIn base digits), left)
  | _ => none

/-- A part of a number behind its mark: the mark, a sign where one may stand, and digits. -/
def readPart (isMark : Char → Bool) (maySign : Bool) (cs : List Char) : List Char × List Char :=
  match cs with
  | mark :: rest =>
    if isMark mark then
      let sign := rest.take 1 |>.filter fun c => maySign && (c = '+' || c = '-')
      let (digits, left) := groupedDigits Char.isDigit (rest.drop sign.length)
      if digits.isEmpty then ([], cs) else (mark :: sign ++ digits, left)
    else ([], cs)
  | [] => ([], cs)

/-- The digits before the point: zero, or digits of which the first is none. -/
def readWhole (cs : List Char) : List Char × List Char :=
  match cs with
  | '0' :: rest => (['0'], rest)
  | _ => groupedDigits Char.isDigit cs

def readDecimal (cs : List Char) : Except Fault (Value × List Char) :=
  let negative := cs.head? = some '-'
  let body := if negative || cs.head? = some '+' then cs.drop 1 else cs
  let (whole, rest) := readWhole body
  let (places, rest) := readPart (· = '.') false rest
  let (exponent, rest) := readPart (fun c => c = 'e' || c = 'E') true rest
  if whole.isEmpty then .error .malformed
  else if places.isEmpty && exponent.isEmpty then
    if maxDecimalDigits < whole.length then .error .tooLong
    else
      let n : Int := valueIn 10 whole
      .ok (.int (if negative then -n else n), rest)
  else .ok (.float (floatOf negative (whole ++ places ++ exponent)), rest)

/-! ## Days and times -/

def readFixed? (count low high : Nat) (cs : List Char) : Option (Nat × List Char) :=
  let digits := cs.take count
  let n := valueIn 10 digits
  if digits.length = count && digits.all Char.isDigit && low ≤ n && n ≤ high then
    some (n, cs.drop count)
  else none

def readMark? (mark : Char) (cs : List Char) : Option (List Char) :=
  match cs with
  | c :: rest => if c = mark then some rest else none
  | [] => none

def isLeapYear (year : Nat) : Bool := year % 4 = 0 && (year % 100 ≠ 0 || year % 400 = 0)

def daysIn (year month : Nat) : Nat :=
  if month = 2 then if isLeapYear year then 29 else 28
  else if month ∈ [4, 6, 9, 11] then 30 else 31

def readDay? (cs : List Char) : Option (Day × List Char) := do
  let (year, cs) ← readFixed? 4 1 9999 cs
  let (month, cs) ← readFixed? 2 1 12 (← readMark? '-' cs)
  let (day, cs) ← readFixed? 2 1 (daysIn year month) (← readMark? '-' cs)
  return (⟨year, month, day⟩, cs)

/-- Digits of a fraction of a second, in millionths; further ones are left out. -/
def readFraction (cs : List Char) : Nat × List Char :=
  match cs with
  | '.' :: rest =>
    let digits := rest.takeWhile Char.isDigit
    if digits.isEmpty then (0, cs)
    else (valueIn 10 ((digits ++ List.replicate 6 '0').take 6), rest.drop digits.length)
  | _ => (0, cs)

def readClock? (cs : List Char) : Option (Clock × List Char) := do
  let (hour, cs) ← readFixed? 2 0 23 cs
  let (minute, cs) ← readFixed? 2 0 59 (← readMark? ':' cs)
  let (second, cs) ← readFixed? 2 0 59 (← readMark? ':' cs)
  let (microsecond, cs) := readFraction cs
  return (⟨hour, minute, second, microsecond⟩, cs)

def readOffset? (cs : List Char) : Option (Int × List Char) := do
  match cs with
  | [] => none
  | c :: rest =>
    if c = 'Z' || c = 'z' then return (0, rest)
    else if c = '+' || c = '-' then
      let (hours, rest) ← readFixed? 2 0 23 rest
      let (minutes, rest) ← readFixed? 2 0 59 (← readMark? ':' rest)
      let total : Int := hours * 60 + minutes
      return (if c = '-' then -total else total, rest)
    else none

def readTimeOfDay? (cs : List Char) : Option (Clock × List Char) :=
  match cs with
  | mark :: rest => if mark ∈ ['T', 't', ' '] then readClock? rest else none
  | [] => none

def readMoment? (cs : List Char) : Option (Value × List Char) :=
  match readDay? cs with
  | some (day, rest) =>
    match readTimeOfDay? rest with
    | none => some (.moment (.day day), rest)
    | some (clock, rest) =>
      match readOffset? rest with
      | some (offset, rest) => some (.moment (.full day clock (some offset)), rest)
      | none => some (.moment (.full day clock none), rest)
  | none => (readClock? cs).map fun (clock, rest) => (.moment (.clock clock), rest)

/-! ## Words -/

def infinity (negative : Bool) : Value := .float (Binary64.infinity negative)

def words : List (String × Value) :=
  [("true", .bool true), ("false", .bool false), ("inf", infinity false),
   ("+inf", infinity false), ("-inf", infinity true), ("nan", .float Binary64.notNumber),
   ("+nan", .float Binary64.notNumber), ("-nan", .float Binary64.notNumber)]

def readWord? (cs : List Char) : Option (Value × List Char) :=
  (words.find? fun e => e.1.toList.isPrefixOf cs).map fun e => (e.2, cs.drop e.1.length)

def readScalar (cs : List Char) : Except Fault (Value × List Char) :=
  if cs.head? = some '"' || cs.head? = some '\'' then
    orMalformed ((readText? cs).map fun (s, rest) => (.text s, rest))
  else
    match (readWord? cs).or ((readMoment? cs).or (readBased? cs)) with
    | some r => .ok r
    | none => readDecimal cs

end BacktestAudit.Data.Toml
