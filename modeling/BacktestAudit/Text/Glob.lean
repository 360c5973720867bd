import BacktestAudit.Text.CharRange

/-!
Name patterns: `*` stands for any text, `?` for one character, and brackets for one character of a
class. A bracket that is never closed stands for itself.

Within brackets a leading `!` turns the class into its complement, a closing bracket right after
the start is a member, and a hyphen between two members makes a range of them; a range that runs
backwards is empty.
-/
namespace BacktestAudit.Text

inductive GlobPart where
  | anyText
  | anyChar
  | char (c : Char)
  | oneOf (negated : Bool) (ranges : List CharRange)

abbrev Glob := List GlobPart

namespace Glob

/-! ## Character classes -/

/-- An item of a class before ranges are formed: a member, or the hyphen that joins its two
neighbours. -/
inductive ClassItem where
  | one (c : Char)
  | join
  deriving DecidableEq

/-- Splits the inside of brackets at the hyphens that form ranges. The first piece takes at least
`least` characters before a hyphen counts, every later one two. -/
def piecesOf (fuel least : Nat) (cs : List Char) : List (List Char) :=
  match fuel with
  | 0 => [cs]
  | fuel + 1 =>
    match (cs.drop least).dropWhile (· ≠ '-') with
    | [] => [cs]
    | _ :: rest => cs.take (cs.length - rest.length - 1) :: piecesOf fuel 2 rest

/-- A hyphen at the very end is a member. -/
def keepLastHyphen : List (List Char) → List (List Char)
  | [p, []] => [p ++ ['-']]
  | p :: ps => p :: keepLastHyphen ps
  | [] => []

/-- Drops the ends of ranges that run backwards, from the last range to the first. -/
def dropBackwards : List (List Char) → List (List Char)
  | [] => []
  | p :: ps =>
    match dropBackwards ps with
    | q :: qs =>
      match p.getLast?, q with
      | some a, b :: more => if b < a then (p.dropLast ++ more) :: qs else p :: q :: qs
      | _, _ => p :: q :: qs
    | [] => [p]

/-- The pieces as items, with a joint between each two. -/
def itemsOf : List (List Char) → List ClassItem
  | [] => []
  | [p] => p.map .one
  | p :: ps => p.map .one ++ .join :: itemsOf ps

/-- The ranges that items stand for; a joint without a member before it is a hyphen. -/
def rangesOf : List ClassItem → List CharRange
  | .one a :: .join :: .one b :: rest => ⟨a.toNat, b.toNat⟩ :: rangesOf rest
  | .one a :: rest => ⟨a.toNat, a.toNat⟩ :: rangesOf rest
  | .join :: rest => ⟨'-'.toNat, '-'.toNat⟩ :: rangesOf rest
  | [] => []

def classOf (inside : List Char) : GlobPart :=
  let least := if inside.head? = some '!' then 2 else 1
  let items := itemsOf (dropBackwards (keepLastHyphen (piecesOf inside.length least inside)))
  match items with
  | .one '!' :: rest => .oneOf true (rangesOf rest)
  | items => .oneOf false (rangesOf items)

/-! ## Reading -/

/-- The inside of brackets and what follows them; a closing bracket at the start, also behind a
`!`, is inside. -/
def bracketed? (cs : List Char) : Option (List Char × List Char) :=
  let start := if cs.head? = some '!' then 1 else 0
  let start := if (cs.drop start).head? = some ']' then start + 1 else start
  let body := (cs.drop start).takeWhile (· ≠ ']')
  match cs.drop (start + body.length) with
  | _ :: rest => some (cs.take (start + body.length), rest)
  | [] => none

theorem bracketed_length {cs inside rest : List Char} (h : bracketed? cs = some (inside, rest)) :
    rest.length < cs.length := by
  unfold bracketed? at h
  dsimp only at h
  split at h
  · next hd =>
    cases h
    have := congrArg List.length hd
    rw [List.length_drop, List.length_cons] at this
    omega
  · cases h

def ofChars : List Char → Glob
  | [] => []
  | '*' :: rest => .anyText :: ofChars rest
  | '?' :: rest => .anyChar :: ofChars rest
  | '[' :: rest =>
    match h : bracketed? rest with
    | some (inside, after) =>
      have := bracketed_length h
      classOf inside :: ofChars after
    | none => .char '[' :: ofChars rest
  | c :: rest => .char c :: ofChars rest
termination_by cs => cs.length

def ofString (s : String) : Glob := ofChars s.toList

/-! ## Matching -/

/-- Whether a part that stands for one character accepts it. -/
def accepts : GlobPart → Char → Bool
  | .anyText, _ => false
  | .anyChar, _ => true
  | .char c, d => c = d
  | .oneOf negated ranges, d => negated != CharRange.memberOf ranges d

def ends : List Char → List (List Char)
  | [] => [[]]
  | c :: cs => (c :: cs) :: ends cs

/-- What may be left of a text behind a part, given what may be left before it, the longest
first. -/
def consume (rests : List (List Char)) : GlobPart → List (List Char)
  | .anyText =>
    match rests with
    | longest :: _ => ends longest
    | [] => []
  | part => rests.filterMap fun
    | c :: cs => if accepts part c then some cs else none
    | [] => none

def isMatch (g : Glob) (cs : List Char) : Bool :=
  (g.foldl consume [cs]).any List.isEmpty

def matchesText (g : Glob) (s : String) : Bool := g.isMatch s.toList

theorem is_match_plain (cs ds : List Char) :
    isMatch (cs.map .char) ds = true ↔ ds = cs := by
  have empty : ∀ cs : List Char, (cs.map GlobPart.char).foldl consume [] = [] := by
    intro cs
    induction cs with
    | nil => rfl
    | cons c cs ih => simpa [consume] using ih
  unfold isMatch
  induction cs generalizing ds with
  | nil => simp
  | cons c cs ih =>
    cases ds with
    | nil => simp [consume, empty]
    | cons d ds =>
      by_cases h : c = d
      · subst h
        simpa [consume, accepts] using ih ds
      · simp [consume, accepts, h, empty, Ne.symm h]

end Glob
end BacktestAudit.Text
