import BacktestAudit.Data.Value
import BacktestAudit.Decimal.Notation
import BacktestAudit.Syntax.StringLiteral

/-!
Reading of JSON text. Besides the numbers of the format the three words for values that are no
numbers are read. A refusal names its place by what is left of the text there.
-/
namespace BacktestAudit.Data.Json
open BacktestAudit.Decimal BacktestAudit.Syntax

inductive Reason where
  | expectedValue
  | expectedName
  | expectedColon
  | expectedComma
  | unterminatedString
  | invalidEscape
  | invalidControlCharacter
  | extraData
  | byteOrderMark
  /-- An integer with more digits than are read. -/
  | tooLong
  deriving DecidableEq, Repr

def Reason.message : Reason → String
  | .expectedValue => "Expecting value"
  | .expectedName => "Expecting property name enclosed in double quotes"
  | .expectedColon => "Expecting a colon"
  | .expectedComma => "Expecting a comma"
  | .unterminatedString => "Unterminated string"
  | .invalidEscape => "Invalid escape"
  | .invalidControlCharacter => "Invalid control character"
  | .extraData => "Extra data"
  | .byteOrderMark => "Unexpected byte order mark"
  | .tooLong => "Exceeds the limit of digits"

/-- A refusal, with the number of characters that are left where it arises. -/
structure Refusal where
  reason : Reason
  left : Nat

def isSpace (c : Char) : Bool := c == ' ' || c == '\t' || c == '\n' || c == '\r'

def skip (cs : List Char) : List Char := cs.dropWhile isSpace

/-! ## Strings -/

def hexQuad? (cs : List Char) : Option Nat := StringLiteral.hexDigits? 4 cs

def isHigh (code : Nat) : Bool := 0xD800 ≤ code && code ≤ 0xDBFF

def isLow (code : Nat) : Bool := 0xDC00 ≤ code && code ≤ 0xDFFF

def escapes : List (Char × Char) :=
  [('"', '"'), ('\\', '\\'), ('/', '/'), ('b', '\x08'), ('f', '\x0c'), ('n', '\n'), ('r', '\r'),
   ('t', '\t')]

/-- Reads a string after its opening quote; `fuel` bounds the number of characters. Two escapes for
the halves of one character are joined. -/
def readString : Nat → List Char → List Char → Except Refusal (String × List Char)
  | 0, acc, cs => .ok (String.ofList acc.reverse, cs)
  | _, _, [] => .error ⟨.unterminatedString, 0⟩
  | fuel + 1, acc, c :: rest =>
    if c = '"' then .ok (String.ofList acc.reverse, rest)
    else if c.toNat < 32 then .error ⟨.invalidControlCharacter, rest.length + 1⟩
    else if c = '\\' then
      match rest with
      | [] => .error ⟨.unterminatedString, 0⟩
      | e :: more =>
        if e = 'u' then
          match hexQuad? more with
          | none => .error ⟨.invalidEscape, rest.length⟩
          | some code =>
            let more := more.drop 4
            match more with
            | '\\' :: 'u' :: low =>
              match hexQuad? low with
              | some second =>
                if isHigh code && isLow second then
                  let joined := 0x10000 + (code - 0xD800) * 1024 + (second - 0xDC00)
                  readString fuel (Char.ofNat joined :: acc) (low.drop 4)
                else readString fuel (StringLiteral.charOfCode code :: acc) more
              | none => readString fuel (StringLiteral.charOfCode code :: acc) more
            | _ => readString fuel (StringLiteral.charOfCode code :: acc) more
        else match escapes.lookup e with
          | some c => readString fuel (c :: acc) more
          | none => .error ⟨.invalidEscape, rest.length⟩
    else readString fuel (c :: acc) rest

/-! ## Numbers -/

def readNumber (cs : List Char) : Except Refusal (Value × List Char) :=
  let negative := cs.head? = some '-'
  let body := if negative then cs.drop 1 else cs
  match body with
  | d :: _ =>
    if d.isDigit then
      let whole := if d = '0' then [d] else body.takeWhile Char.isDigit
      let rest := body.drop whole.length
      let places := match rest with
        | '.' :: more => more.takeWhile Char.isDigit
        | _ => []
      let point := if places.isEmpty then [] else '.' :: places
      let rest := rest.drop point.length
      let exponent := match rest with
        | e :: s :: more =>
          if e = 'e' || e = 'E' then
            if s = '+' || s = '-' then
              let digits := more.takeWhile Char.isDigit
              if digits.isEmpty then [] else e :: s :: digits
            else
              let digits := (s :: more).takeWhile Char.isDigit
              if digits.isEmpty then [] else e :: digits
          else []
        | _ => []
      let rest := rest.drop exponent.length
      if point.isEmpty && exponent.isEmpty then
        if maxDecimalDigits < whole.length then .error ⟨.tooLong, cs.length⟩
        else
          let n : Int := valueIn 10 whole
          .ok (.int (if negative then -n else n), rest)
      else
        .ok (.float (floatOf negative (whole ++ point ++ exponent)), rest)
    else .error ⟨.expectedValue, cs.length⟩
  | [] => .error ⟨.expectedValue, cs.length⟩

def words : List (List Char × Value) :=
  [("null".toList, .null), ("true".toList, .bool true), ("false".toList, .bool false),
   ("NaN".toList, .float Binary64.notNumber), ("Infinity".toList, .float (Binary64.infinity false)),
   ("-Infinity".toList, .float (Binary64.infinity true))]

/-! ## Values -/

mutual

/-- Reads a value; `fuel` bounds the number of steps. -/
def readValue : Nat → List Char → Except Refusal (Value × List Char)
  | 0, cs => .error ⟨.expectedValue, cs.length⟩
  | fuel + 1, cs =>
    match cs with
    | '"' :: rest => do
      let (s, rest) ← readString rest.length [] rest
      return (.text s, rest)
    | '[' :: rest =>
      match skip rest with
      | ']' :: rest => .ok (.list [], rest)
      | rest => readItems fuel [] rest
    | '\x7b' :: rest =>
      match skip rest with
      | '\x7d' :: rest => .ok (.table [], rest)
      | rest => readEntries fuel [] rest
    | _ =>
      match words.find? (·.1.isPrefixOf cs) with
      | some (word, value) => .ok (value, cs.drop word.length)
      | none => readNumber cs

def readItems : Nat → List Value → List Char → Except Refusal (Value × List Char)
  | 0, _, cs => .error ⟨.expectedValue, cs.length⟩
  | fuel + 1, acc, cs => do
    let (v, rest) ← readValue fuel cs
    match skip rest with
    | ',' :: rest => readItems fuel (v :: acc) (skip rest)
    | ']' :: rest => return (.list (v :: acc).reverse, rest)
    | rest => throw ⟨.expectedComma, rest.length⟩

def readEntries : Nat → List (String × Value) → List Char → Except Refusal (Value × List Char)
  | 0, _, cs => .error ⟨.expectedName, cs.length⟩
  | fuel + 1, acc, cs =>
    match cs with
    | '"' :: rest => do
      let (key, rest) ← readString rest.length [] rest
      match skip rest with
      | ':' :: rest => do
        let (v, rest) ← readValue fuel (skip rest)
        match skip rest with
        | ',' :: rest => readEntries fuel ((key, v) :: acc) (skip rest)
        | '\x7d' :: rest => return (.table (Entries.ofPairs ((key, v) :: acc).reverse), rest)
        | rest => throw ⟨.expectedComma, rest.length⟩
      | rest => throw ⟨.expectedColon, rest.length⟩
    | _ => .error ⟨.expectedName, cs.length⟩

end

def parse (text : String) : Except (Reason × Nat) Value :=
  let cs := text.toList
  let lineOf (left : Nat) : Nat := (cs.take (cs.length - left)).count '\n' + 1
  if cs.head? = some '\uFEFF' then .error (.byteOrderMark, 1)
  else match readValue (2 * cs.length + 1) (skip cs) with
    | .error r => .error (r.reason, lineOf r.left)
    | .ok (v, rest) =>
      let rest := skip rest
      if rest.isEmpty then .ok v else .error (.extraData, lineOf rest.length)

end BacktestAudit.Data.Json
