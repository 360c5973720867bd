import BacktestAudit.Text.Lower.Tables

/-!
Lower case for all scripts. A capital sigma at the end of a word becomes the final small sigma, and
the capital I with a dot becomes a small i and a dot of its own.
-/
namespace BacktestAudit.Text
open Lower

namespace Lower

def isIgnorable (c : Char) : Bool := CharRange.memberOf ignorableRanges c

def isCased (c : Char) : Bool := CharRange.memberOf casedRanges c

def Run.contains (r : Run) (code : Nat) : Bool :=
  r.first ≤ code && code ≤ r.last && (code - r.first) % r.step = 0

/-- The lower-case form of a character that has one of one character. -/
def simple (c : Char) : Char :=
  if c.toNat < 128 then c.toLower
  else match runs.find? (·.contains c.toNat) with
    | some r => Char.ofNat (c.toNat + r.offset).toNat
    | none => c

/-- Whether the nearest character that is not ignorable belongs to a word. -/
def meetsWord (cs : List Char) : Bool :=
  match cs.dropWhile isIgnorable with
  | c :: _ => isCased c
  | [] => false

/-- A capital sigma is final behind a word and before none. -/
def isFinal (before after : List Char) : Bool := meetsWord before && !meetsWord after

/-- The lower-case form of a character between others; those before it are given backwards. -/
def form (before : List Char) (c : Char) (after : List Char) : List Char :=
  if c.toNat = 0x3A3 then [Char.ofNat (if isFinal before after then 0x3C2 else 0x3C3)]
  else if c.toNat = 0x130 then ['i', Char.ofNat 0x307]
  else [simple c]

def walk : List Char → List Char → List Char
  | _, [] => []
  | before, c :: after => form before c after ++ walk (c :: before) after

end Lower

def lower (s : String) : String := String.ofList (Lower.walk [] s.toList)

namespace Lower

theorem simple_of_ascii {c : Char} (h : c.toNat < 128) : simple c = c.toLower := by
  simp [simple, h]

theorem walk_length_ge (before cs : List Char) : cs.length ≤ (walk before cs).length := by
  induction cs generalizing before with
  | nil => simp [walk]
  | cons c rest ih =>
    have hform : 1 ≤ (form before c rest).length := by
      unfold form
      split
      · simp
      · split <;> simp
    simp only [walk, List.length_append, List.length_cons]
    have := ih (c :: before)
    omega

end Lower
end BacktestAudit.Text
