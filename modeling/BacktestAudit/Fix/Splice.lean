import BacktestAudit.Error
import BacktestAudit.Finding

/-!
Splicing: several edits of one text at a time. Edits that overlap or have one span are refused.
-/
namespace BacktestAudit.Fix
open BacktestAudit.Source BacktestAudit.Text

structure TaggedEdit where
  rule : String
  edit : Edit
  deriving DecidableEq, Repr

/-- Whether two spans cannot both be replaced. -/
def collide (a b : Span) : Bool := a.overlaps b || a = b

theorem collide_comm (a b : Span) : collide a b = collide b a := by
  simp only [collide, Span.overlaps_comm a b, eq_comm]

def spanLe (a b : Span) : Bool := a.start < b.start || a.start = b.start && decide (a.stop ≤ b.stop)

def ordered (edits : List TaggedEdit) : List TaggedEdit :=
  sortBy (fun a b => spanLe a.edit.span b.edit.span) edits

def collision? : List TaggedEdit → Option (TaggedEdit × TaggedEdit)
  | a :: b :: rest =>
    if collide a.edit.span b.edit.span then some (a, b) else collision? (b :: rest)
  | _ => none

def replaceBytes (bytes : List UInt8) (e : Edit) : List UInt8 :=
  slice bytes 0 e.span.start ++ encode e.replacement ++ sliceFrom bytes e.span.stop

/-- Replaces from the back to the front, so that what is replaced does not move what is not yet. -/
def spliceBytes (bytes : List UInt8) (edits : List Edit) : List UInt8 :=
  edits.foldr (fun e bs => replaceBytes bs e) bytes

def splice (text : String) (edits : List TaggedEdit) : Except Failure String :=
  let edits := ordered edits
  match collision? edits with
  | some (a, b) =>
    .error (.error (.overlap a.rule b.rule ⟨b.edit.span.start, a.edit.span.stop⟩))
  | none =>
    match decode? (spliceBytes (encode text) (edits.map (·.edit))) with
    | some s => .ok s
    | none => .error (.accident .undecodable)

theorem replace_bytes_take (bytes : List UInt8) (e : Edit) {a b : Nat}
    (h : e.span = ⟨a, b⟩) (ha : a ≤ bytes.length) :
    (replaceBytes bytes e).take a = bytes.take a := by
  have hz : clampIndex bytes.length 0 = 0 := by simp [clampIndex]
  simp only [replaceBytes, h, slice, hz, clamp_index_of_le ha, List.drop_zero, Nat.sub_zero]
  rw [List.append_assoc, List.take_append_of_le_length (by rw [List.length_take]; omega),
    List.take_take, Nat.min_self]

end BacktestAudit.Fix
