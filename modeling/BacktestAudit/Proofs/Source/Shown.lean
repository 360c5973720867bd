import BacktestAudit.Proofs.Source.Encoded
import Mathlib.Data.List.Forall2

/-!
Where a line lies in the bytes of its text, and what a finding shows of it: texts that show the same
line have the same bytes there, up to where the line is cut.
-/
namespace BacktestAudit.Source
open BacktestAudit.Text BacktestAudit.Syntax
set_option autoImplicit false

/-! ## Lines in the bytes -/

theorem size_of_chars_append (as bs : List Char) :
    sizeOfChars (as ++ bs) = sizeOfChars as + sizeOfChars bs := by
  induction as with
  | nil => exact (Nat.zero_add _).symm
  | cons a as ih => rw [List.cons_append, size_of_chars_cons, size_of_chars_cons, ih, Nat.add_assoc]

theorem eq_nil_of_size {cs : List Char} (h : sizeOfChars cs = 0) : cs = [] := by
  cases cs with
  | nil => rfl
  | cons c cs =>
    have hc := c.utf8Size_pos
    rw [size_of_chars_cons] at h
    omega

/-- Whether a piece lies in characters that begin at an offset, and begins at a place there. -/
def LiesAt (offset : Nat) (cs : List Char) (start : Nat) (p : List Char) : Prop :=
  ∃ before after, cs = before ++ p ++ after ∧ start = offset + sizeOfChars before

theorem LiesAt.behind {offset start : Nat} {cs p : List Char} (front : List Char)
    (h : LiesAt (offset + sizeOfChars front) cs start p) : LiesAt offset (front ++ cs) start p := by
  obtain ⟨before, after, rfl, rfl⟩ := h
  refine ⟨front ++ before, after, by simp only [List.append_assoc], ?_⟩
  rw [size_of_chars_append, Nat.add_assoc]

theorem pieces_lie (offset : Nat) (cs : List Char) :
    List.Forall₂ (LiesAt offset cs) (offset :: breakEnds offset cs) (pieces cs) := by
  fun_induction pieces cs generalizing offset with
  | case1 rest ih =>
    rw [breakEnds]
    refine .cons ⟨[], '\r' :: '\n' :: rest, rfl, rfl⟩ ((ih (offset + 2)).imp fun _ _ h => ?_)
    exact LiesAt.behind ['\r', '\n'] h
  | case2 c rest hpair hbreak ih =>
    rw [break_ends_cons hpair, if_pos hbreak]
    refine .cons ⟨[], c :: rest, rfl, rfl⟩ ((ih (offset + 1)).imp fun _ _ h => ?_)
    have hsize : sizeOfChars [c] = 1 := size_of_break hbreak
    exact LiesAt.behind [c] (hsize ▸ h)
  | case3 c rest hpair hbreak p ps hpieces ih =>
    rw [break_ends_cons hpair, if_neg hbreak]
    have hrest := hpieces ▸ ih (offset + c.utf8Size)
    cases hrest with
    | cons hhead htail =>
      obtain ⟨before, after, hcs, hstart⟩ := hhead
      obtain rfl : before = [] := eq_nil_of_size (by omega)
      refine .cons ⟨[], after, by rw [hcs]; rfl, rfl⟩ (htail.imp fun _ _ h => ?_)
      exact LiesAt.behind [c] h
  | case4 c rest hpair hbreak hpieces ih =>
    have hrest := hpieces ▸ ih offset
    exact absurd (List.forall₂_nil_right_iff.mp hrest) (List.cons_ne_nil _ _)
  | case5 => exact .cons ⟨[], [], rfl, rfl⟩ .nil

theorem piece_of_line {text l : String} {i : Nat} (h : (lines text)[i]? = some l) :
    (pieces text.toList)[i]? = some l.toList := by
  simp only [lines, List.getElem?_map, Option.map_eq_some_iff] at h
  obtain ⟨p, hp, rfl⟩ := h
  rw [String.toList_ofList]
  split at hp
  · rw [List.getElem?_dropLast] at hp
    split at hp
    · exact hp
    · nomatch hp
  · exact hp

theorem line_lies {text : String} {line : Int} (h : lineText text line ≠ "") :
    ∃ start, (lineStarts text)[(line - 1).toNat]? = some start ∧
      LiesAt 0 text.toList start (lineText text line).toList := by
  have hline : 1 ≤ line := by
    by_contra hline
    exact h (if_neg hline)
  have htext : lineText text line = (lines text)[(line - 1).toNat]?.getD "" := if_pos hline
  cases hget : (lines text)[(line - 1).toNat]? with
  | none => exact absurd (htext.trans (by rw [hget]; rfl)) h
  | some l =>
    rw [htext, hget]
    obtain ⟨hi, hpiece⟩ := List.getElem?_eq_some_iff.mp (piece_of_line hget)
    have hpieces := pieces_lie 0 text.toList
    rw [← line_starts_eq] at hpieces
    have hi' : (line - 1).toNat < (lineStarts text).length := hpieces.length_eq ▸ hi
    exact ⟨_, List.getElem?_eq_getElem hi', hpiece ▸ hpieces.get hi' hi⟩

/-! ## The part that is shown -/

def shownLength : Nat := 116

/-- The part of a line that is shown whole. -/
def shownPart (text : String) (line : Int) : List Char :=
  (strip (lineText text line).toList).take shownLength

/-- Where the part of a line that is shown begins in the bytes. -/
def shownStart (text : String) (line : Int) : Nat :=
  (lineStarts text)[(line - 1).toNat]?.getD 0 +
    sizeOfChars ((lineText text line).toList.takeWhile isBlank)

theorem strip_split (cs : List Char) :
    ∃ trail, cs = cs.takeWhile isBlank ++ strip cs ++ trail := by
  let rest := cs.dropWhile isBlank
  refine ⟨(rest.reverse.takeWhile isBlank).reverse, ?_⟩
  have hrest : rest = strip cs ++ (rest.reverse.takeWhile isBlank).reverse := by
    rw [strip, ← List.reverse_append, List.takeWhile_append_dropWhile, List.reverse_reverse]
  rw [List.append_assoc, ← hrest, List.takeWhile_append_dropWhile]

theorem shown_part_lies {text : String} {line : Int} (h : shownPart text line ≠ []) :
    LiesAt 0 text.toList (shownStart text line) (shownPart text line) := by
  have hline : lineText text line ≠ "" := by
    intro hempty
    rw [shownPart, hempty] at h
    exact h rfl
  obtain ⟨start, hget, before, after, htext, hstart⟩ := line_lies hline
  obtain ⟨trail, hsplit⟩ := strip_split (lineText text line).toList
  have hcut := List.take_append_drop shownLength (strip (lineText text line).toList)
  refine ⟨before ++ (lineText text line).toList.takeWhile isBlank,
    (strip (lineText text line).toList).drop shownLength ++ trail ++ after, ?_, ?_⟩
  · rw [htext, shownPart]
    conv_lhs => rw [hsplit, ← hcut]
    simp only [List.append_assoc]
  · rw [shownStart, hget, size_of_chars_append, Option.getD_some, hstart, Nat.zero_add, Nat.zero_add]

theorem encode_of_lies {text : String} {start : Nat} {p : List Char}
    (h : LiesAt 0 text.toList start p) :
    ∃ before after, encode text = before ++ encode (String.ofList p) ++ after ∧
      before.length = start := by
  obtain ⟨before, after, htext, hstart⟩ := h
  refine ⟨encode (String.ofList before), encode (String.ofList after), ?_, ?_⟩
  · rw [← encode_append, ← encode_append, ← String.ofList_append, ← String.ofList_append, ← htext,
      String.ofList_toList]
  · rw [encode_length, String.toList_ofList, hstart, Nat.zero_add]

/-- Whether a span lies in the part of a line that is shown. -/
structure LiesShown (text : String) (line : Int) (span : Span) : Prop where
  start_le : (shownStart text line : Int) ≤ span.start
  ordered : span.start ≤ span.stop
  le_stop : span.stop ≤ shownStart text line + sizeOfChars (shownPart text line)

theorem bytes_of_lies {text : String} {start : Nat} {p : List Char} {span : Span}
    (h : LiesAt 0 text.toList start p) (hstart : (start : Int) ≤ span.start)
    (hordered : span.start ≤ span.stop) (hstop : span.stop ≤ start + sizeOfChars p) :
    bytesOf text span =
      ((encode (String.ofList p)).drop (span.start.toNat - start)).take
        (span.stop.toNat - span.start.toNat) := by
  obtain ⟨before, after, htext, rfl⟩ := encode_of_lies h
  have hsize : (encode (String.ofList p)).length = sizeOfChars p := by
    rw [encode_length, String.toList_ofList]
  have hspan : span = ⟨(span.start.toNat : Int), (span.stop.toNat : Int)⟩ := by
    rw [Int.toNat_of_nonneg (by omega), Int.toNat_of_nonneg (by omega)]
  have hlength : (encode text).length = before.length + sizeOfChars p + after.length := by
    rw [htext, List.length_append, List.length_append, hsize]
  rw [bytesOf, hspan, slice_of_le _ (by omega) (by omega), htext, List.append_assoc,
    List.drop_append, List.drop_eq_nil_of_le (by omega), List.nil_append,
    List.drop_append_of_le_length (by omega),
    List.take_append_of_le_length (by rw [List.length_drop]; omega)]
  rfl

/-- Bytes in the part that is shown are told by it and by where it begins. -/
theorem bytes_of_shown {text text' : String} {line : Int} {span : Span}
    (hpart : shownPart text line = shownPart text' line)
    (hplace : shownStart text line = shownStart text' line) (h : LiesShown text line span) :
    bytesOf text span = bytesOf text' span := by
  by_cases hempty : shownPart text line = []
  · have hstart := h.start_le
    have hordered := h.ordered
    have hstop := h.le_stop
    rw [hempty] at hstop
    have hnone : span.stop = span.start := by
      simp only [sizeOfChars] at hstop
      omega
    simp [bytesOf, slice, hnone]
  · rw [bytes_of_lies (shown_part_lies hempty) h.start_le h.ordered h.le_stop,
      bytes_of_lies (shown_part_lies (hpart ▸ hempty)) (hplace ▸ h.start_le) h.ordered
        (hplace ▸ hpart ▸ h.le_stop), hpart, hplace]

/-! ## What a finding shows -/

def marked (text : String) (place : Lines) : List Char :=
  strip (lineText text place.first).toList ++ if place.first < place.last then " ...".toList else []

def cut (cs : List Char) : List Char :=
  if cs.length ≤ 120 then cs else cs.take 117 ++ "...".toList

theorem cut_length (cs : List Char) : (cut cs).length = min cs.length 120 := by
  unfold cut
  split
  · omega
  · rw [List.length_append, List.length_take, String.length_toList]
    change min 117 cs.length + 3 = _
    omega

theorem take_cut (cs : List Char) : (cut cs).take shownLength = cs.take shownLength := by
  unfold cut
  split
  · rfl
  · rw [List.take_append_of_le_length (by rw [List.length_take]; unfold shownLength; omega),
      List.take_take]
    rfl

theorem to_list_snippet (text : String) (place : Lines) :
    (snippet text place snippetLimit).toList = cut (marked text place) := by
  let line := stripString (lineText text place.first)
  let shown := if place.first < place.last then line ++ " ..." else line
  have hmarked : shown.toList = marked text place := by
    change (if place.first < place.last then line ++ " ..." else line).toList = _
    have hline : line.toList = strip (lineText text place.first).toList := String.toList_ofList
    rw [marked, ← hline]
    split
    · exact String.toList_append
    · exact (List.append_nil _).symm
  change (if (shown.length : Int) ≤ 120 then shown
    else String.ofList (slice shown.toList 0 117) ++ "...").toList = _
  rw [← String.length_toList, hmarked, cut]
  by_cases hlong : (marked text place).length ≤ 120
  · rw [if_pos (by omega), if_pos hlong, hmarked]
  · rw [if_neg (by omega), if_neg hlong, String.toList_append, String.toList_ofList]
    exact congrArg (· ++ "...".toList) (slice_of_le (a := 0) (b := 117) _ (by omega) (by omega))

theorem shown_part_of_snippet {text text' : String} {place : Lines}
    (h : snippet text place snippetLimit = snippet text' place snippetLimit) :
    shownPart text place.first = shownPart text' place.first := by
  have hcut : cut (marked text place) = cut (marked text' place) := by
    rw [← to_list_snippet, ← to_list_snippet, h]
  have htake := take_cut (marked text place)
  rw [hcut, take_cut] at htake
  have hlength := cut_length (marked text place)
  rw [hcut, cut_length] at hlength
  have hmark : (if place.first < place.last then " ...".toList else []).length ≤ 4 := by
    split <;> decide
  by_cases hlong : (marked text place).length < 120
  · -- Both are shown as they are, with the same mark.
    rw [cut, cut, if_pos (by omega), if_pos (by omega)] at hcut
    rw [shownPart, shownPart, List.append_cancel_right hcut]
  · -- Both are so long that what is shown whole is none of the mark.
    unfold marked at hlength hlong htake
    rw [List.length_append] at hlength hlong
    rw [List.length_append] at hlength
    rw [List.take_append_of_le_length (by unfold shownLength; omega),
      List.take_append_of_le_length (by unfold shownLength; omega)] at htake
    exact htake.symm

end BacktestAudit.Source
