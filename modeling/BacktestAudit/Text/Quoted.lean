import BacktestAudit.Text.Printable

/-!
Text in quotes. Apostrophes are used unless the text holds an apostrophe and no double quote. What
is not printable is written as an escape.
-/
namespace BacktestAudit.Text

namespace Quoted

def hexText (width n : Nat) : String :=
  let ds := Nat.toDigits 16 n
  String.ofList (List.replicate (width - ds.length) '0' ++ ds)

def charText (quote c : Char) : String :=
  if c = quote || c = '\\' then String.ofList ['\\', c]
  else if c = '\n' then "\\n"
  else if c = '\r' then "\\r"
  else if c = '\t' then "\\t"
  else if isPrintable c then String.singleton c
  else if c.toNat < 0x100 then "\\x" ++ hexText 2 c.toNat
  else if c.toNat < 0x10000 then "\\u" ++ hexText 4 c.toNat
  else "\\U" ++ hexText 8 c.toNat

def quoteFor (cs : List Char) : Char :=
  if '\'' ∈ cs ∧ '"' ∉ cs then '"' else '\''

end Quoted

def quoted (s : String) : String :=
  let quote := Quoted.quoteFor s.toList
  String.singleton quote ++ String.join (s.toList.map (Quoted.charText quote)) ++
    String.singleton quote

end BacktestAudit.Text
