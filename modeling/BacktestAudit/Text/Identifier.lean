import BacktestAudit.Text.Identifier.Tables

/-!
Which characters make up an identifier: ASCII letters, digits and the underscore, and above ASCII
the characters of the Unicode identifier classes.
-/
namespace BacktestAudit.Text.Identifier

def isStart (c : Char) : Bool :=
  if c.toNat < 128 then c.isAlpha || c == '_' else CharRange.memberOf startRanges c

def isFollow (c : Char) : Bool :=
  if c.toNat < 128 then c.isAlphanum || c == '_'
  else CharRange.memberOf startRanges c || CharRange.memberOf followRanges c

theorem is_follow_of_start {c : Char} (h : isStart c = true) : isFollow c = true := by
  unfold isStart at h
  unfold isFollow
  split at h
  · next hc =>
    rw [if_pos hc]
    rcases Bool.or_eq_true_iff.mp h with h | h
    · simp [Char.isAlphanum, h]
    · simp [h]
  · next hc => rw [if_neg hc, h, Bool.true_or]

def isValid : List Char → Bool
  | [] => false
  | c :: rest => isStart c && rest.all isFollow

end BacktestAudit.Text.Identifier
