import BacktestAudit.Text.CharRange

/-!
Blank characters: the white space and the separators of Unicode, and the ASCII information
separators.
-/
namespace BacktestAudit.Text

def blankRanges : List CharRange := CharRange.pairs [
  9, 13, 28, 32, 0x85, 0x85, 0xA0, 0xA0, 0x1680, 0x1680, 0x2000, 0x200A, 0x2028, 0x2029,
  0x202F, 0x202F, 0x205F, 0x205F, 0x3000, 0x3000]

def isBlank (c : Char) : Bool := CharRange.memberOf blankRanges c

theorem is_blank_of_is_whitespace {c : Char} (h : c.isWhitespace = true) : isBlank c = true := by
  simp only [Char.isWhitespace, Bool.or_eq_true, decide_eq_true_eq] at h
  rcases h with ((rfl | rfl) | rfl) | rfl <;> decide

def strip (cs : List Char) : List Char :=
  ((cs.dropWhile isBlank).reverse.dropWhile isBlank).reverse

def stripString (s : String) : String := String.ofList (strip s.toList)

def stripRight (cs : List Char) : List Char :=
  (cs.reverse.dropWhile isBlank).reverse

end BacktestAudit.Text
