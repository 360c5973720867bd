import BacktestAudit.Proofs.Source.Breaks

/-!
Lines and bytes. The lines of a text are split from its characters, and the offsets at which lines
start are found in its bytes. The two agree: from each offset on stand the bytes of the line with its
number and of one break behind it, and so on to the end of the text.
-/
namespace BacktestAudit.Source
open BacktestAudit.Text BacktestAudit.Syntax
set_option autoImplicit false

/-! ## Pieces one behind the other -/

/-- Characters from an offset on that are made of pieces with a break behind each but the last, and
the offsets at which the pieces begin. -/
inductive Woven : Nat → List Char → List Nat → List (List Char) → List LineBreak → Prop
  | last (offset : Nat) (p : List Char) : Woven offset p [offset] [p] []
  | cons {offset : Nat} {rest p : List Char} {starts : List Nat} {ps : List (List Char)}
      {b : LineBreak} {bs : List LineBreak}
      (h : Woven (offset + sizeOfChars (p ++ b.chars)) rest starts ps bs) :
      Woven offset (p ++ b.chars ++ rest) (offset :: starts) (p :: ps) (b :: bs)

namespace Woven

/-- A character in front that ends no line becomes a part of the first piece. -/
theorem push {offset : Nat} {c : Char} {cs p : List Char} {starts : List Nat}
    {ps : List (List Char)} {bs : List LineBreak}
    (h : Woven (offset + c.utf8Size) cs ((offset + c.utf8Size) :: starts) (p :: ps) bs) :
    Woven offset (c :: cs) (offset :: starts) ((c :: p) :: ps) bs := by
  cases h with
  | last => exact .last offset (c :: cs)
  | @cons _ rest _ _ _ b bs h =>
    rw [Nat.add_assoc, ← size_of_chars_cons, ← List.cons_append] at h
    exact .cons h

/-- Where a piece lies, and what stands behind it: a break, at whose end the next piece begins, or
nothing. -/
theorem piece_at {offset : Nat} {cs : List Char} {starts : List Nat} {ps : List (List Char)}
    {bs : List LineBreak} (h : Woven offset cs starts ps bs) {i : Nat} {p : List Char}
    (hp : ps[i]? = some p) :
    ∃ before after, cs = before ++ p ++ after ∧ starts[i]? = some (offset + sizeOfChars before) ∧
      ((after = [] ∧ bs[i]? = none ∧ starts[i + 1]? = none) ∨
        ∃ b rest, bs[i]? = some b ∧ after = b.chars ++ rest ∧
          starts[i + 1]? = some (offset + sizeOfChars (before ++ p ++ b.chars))) := by
  induction h generalizing i with
  | last offset q =>
    cases i with
    | zero =>
      obtain rfl : q = p := Option.some.inj hp
      exact ⟨[], [], (List.append_nil q).symm, rfl, .inl ⟨rfl, rfl, rfl⟩⟩
    | succ i => nomatch hp
  | @cons offset rest q starts ps b bs h ih =>
    cases i with
    | zero =>
      obtain rfl : q = p := Option.some.inj hp
      refine ⟨[], b.chars ++ rest, List.append_assoc .., rfl, .inr ⟨b, rest, rfl, rfl, ?_⟩⟩
      cases h <;> rfl
    | succ i =>
      obtain ⟨before, after, rfl, hstart, hbehind⟩ := ih hp
      refine ⟨q ++ b.chars ++ before, after, by simp only [List.append_assoc], ?_, ?_⟩
      · rw [List.getElem?_cons_succ, hstart, size_of_chars_append (q ++ b.chars), Nat.add_assoc]
      · rcases hbehind with hend | ⟨b', rest', hb', hafter, hnext⟩
        · exact .inl hend
        · refine .inr ⟨b', rest', hb', hafter, ?_⟩
          rw [List.getElem?_cons_succ, hnext, Nat.add_assoc, ← size_of_chars_append]
          simp only [List.append_assoc]

end Woven

theorem first_break {c : Char} {cs : List Char} (hbreak : isBreak c = true)
    (hpair : ∀ rest, c = '\r' → cs = '\n' :: rest → False) :
    ∃ b : LineBreak, b.chars = [c] ∧ lineBreaks (c :: cs) = b :: lineBreaks cs := by
  simp only [isBreak, Bool.or_eq_true, beq_iff_eq] at hbreak
  rcases hbreak with rfl | rfl
  · refine ⟨.carriageReturn, rfl, line_breaks_return fun hhead => ?_⟩
    obtain ⟨rest, hcs⟩ := List.head?_eq_some_iff.mp hhead
    exact hpair rest rfl hcs
  · exact ⟨.lineFeed, rfl, rfl⟩

theorem pieces_woven (offset : Nat) (cs : List Char) :
    Woven offset cs (offset :: breakEnds offset cs) (pieces cs) (lineBreaks cs) := by
  fun_induction pieces cs generalizing offset with
  | case1 rest ih =>
    rw [breakEnds, lineBreaks]
    exact .cons (p := []) (b := .pair) (ih (offset + 2))
  | case2 c rest hpair hbreak ih =>
    obtain ⟨b, hb, hbreaks⟩ := first_break hbreak hpair
    have hrest : Woven (offset + sizeOfChars ([] ++ b.chars)) rest _ _ _ := ih _
    have hwoven := hrest.cons
    have hsize : sizeOfChars [c] = 1 := size_of_break hbreak
    rw [List.nil_append, hb, hsize] at hwoven
    rw [break_ends_cons hpair, if_pos hbreak, hbreaks]
    exact hwoven
  | case3 c rest hpair hbreak p ps hpieces ih =>
    have hc : isBreak c = false := Bool.eq_false_iff.mpr hbreak
    have hbreaks : lineBreaks (c :: rest) = lineBreaks rest := by
      have hparted : Parted [c] rest := by
        intro hlast _
        obtain rfl : c = '\r' := Option.some.inj hlast
        exact hbreak rfl
      have happend := line_breaks_append hparted
      rwa [line_breaks_eq_nil (List.forall_mem_singleton.mpr hc), List.nil_append] at happend
    have hrest := ih (offset + c.utf8Size)
    rw [hpieces] at hrest
    rw [break_ends_cons hpair, if_neg hbreak, hbreaks]
    exact hrest.push
  | case4 c rest _ _ hpieces => exact absurd hpieces (pieces_ne_nil rest)
  | case5 => exact .last offset []

/-! ## Lines with their breaks -/

/-- Lines with the breaks behind them; there may be one break less than lines. -/
def joined : List (List Char) → List LineBreak → List Char
  | p :: ps, b :: bs => p ++ b.chars ++ joined ps bs
  | ps, [] => ps.flatten
  | [], _ => []

theorem Woven.joined_eq {offset : Nat} {cs : List Char} {starts : List Nat}
    {ps : List (List Char)} {bs : List LineBreak} (h : Woven offset cs starts ps bs) :
    joined ps bs = cs := by
  induction h with
  | last offset p => exact List.append_nil p
  | cons h ih => rw [joined, ih]

theorem joined_append_nil {ps : List (List Char)} {bs : List LineBreak}
    (h : bs.length ≤ ps.length) : joined (ps ++ [[]]) bs = joined ps bs := by
  induction ps generalizing bs with
  | nil =>
    obtain rfl := List.eq_nil_of_length_eq_zero (Nat.le_zero.mp h)
    rfl
  | cons p ps ih =>
    cases bs with
    | nil => simp [joined]
    | cons b bs => rw [List.cons_append, joined, joined, ih (Nat.le_of_succ_le_succ h)]

theorem pieces_of_lines (text : String) :
    ∃ dropped, pieces text.toList = (lines text).map String.toList ++ dropped ∧
      (dropped = [] ∨ dropped = [[]]) := by
  have hlines (ps : List (List Char)) : (ps.map String.ofList).map String.toList = ps := by
    rw [List.map_map]
    exact (List.map_congr_left fun p _ => String.toList_ofList).trans ps.map_id
  simp only [lines]
  split
  · next hlast =>
    refine ⟨[[]], ?_, .inr rfl⟩
    rw [hlines]
    obtain ⟨front, hfront⟩ := List.getLast?_eq_some_iff.mp hlast
    rw [hfront, List.dropLast_concat]
  · exact ⟨[], by rw [hlines, List.append_nil], .inl rfl⟩

theorem joined_lines (text : String) :
    joined ((lines text).map String.toList) (lineBreaks text.toList) = text.toList := by
  have hwoven := (pieces_woven 0 text.toList).joined_eq
  have hlength := pieces_length text.toList
  obtain ⟨dropped, hpieces, rfl | rfl⟩ := pieces_of_lines text
  · rwa [hpieces, List.append_nil] at hwoven
  · rw [hpieces, List.length_append] at hlength
    rwa [hpieces, joined_append_nil (Nat.le_of_eq (Nat.succ_inj.mp hlength).symm)] at hwoven

theorem line_text_of_piece {text : String} {i : Nat} {p : List Char}
    (h : (pieces text.toList)[i]? = some p) : lineText text (i + 1) = String.ofList p := by
  have hline : lineText text (i + 1) = (lines text)[i]?.getD "" := by
    rw [lineText, if_pos (by omega), Int.add_sub_cancel, Int.toNat_natCast]
  rw [hline]
  obtain ⟨dropped, hpieces, hdropped⟩ := pieces_of_lines text
  rw [hpieces] at h
  cases hget : (lines text)[i]? with
  | some l =>
    have hmap : ((lines text).map String.toList)[i]? = some l.toList := by
      rw [List.getElem?_map, hget]
      rfl
    rw [List.getElem?_append_left (List.getElem?_eq_some_iff.mp hmap).1, hmap] at h
    obtain rfl := Option.some.inj h
    exact String.ofList_toList.symm
  | none =>
    rw [List.getElem?_append_right (by simpa using hget)] at h
    obtain rfl : p = [] := by
      rcases hdropped with rfl | rfl
      · nomatch h
      · exact List.mem_singleton.mp (List.mem_of_getElem? h)
    rfl

/-! ## Lines in the bytes -/

def LineBreak.bytes (b : LineBreak) : List UInt8 := encode (String.ofList b.chars)

/-- Where a line lies in the bytes of its text: where the line with its number starts, with one break
behind it, at whose end the next line starts, or at the end of the text. -/
def LineInBytes (text : String) (i : Nat) (line : String) : Prop :=
  ∃ front behind, encode text = front ++ encode line ++ behind ∧
    (lineStarts text)[i]? = some front.length ∧
    ((behind = [] ∧ (lineStarts text)[i + 1]? = none) ∨
      ∃ b rest, (lineBreaks text.toList)[i]? = some b ∧ behind = b.bytes ++ rest ∧
        (lineStarts text)[i + 1]? = some (front ++ encode line ++ b.bytes).length)

theorem piece_in_bytes {text : String} {i : Nat} {p : List Char}
    (h : (pieces text.toList)[i]? = some p) : LineInBytes text i (String.ofList p) := by
  have hsize (cs : List Char) : sizeOfChars cs = (encode (String.ofList cs)).length := by
    rw [encode_length, String.toList_ofList]
  have hencode (cs ds : List Char) : encode (String.ofList (cs ++ ds)) =
      encode (String.ofList cs) ++ encode (String.ofList ds) := by
    rw [String.ofList_append, encode_append]
  obtain ⟨before, after, htext, hstart, hbehind⟩ := (pieces_woven 0 text.toList).piece_at h
  rw [← line_starts_eq] at hstart hbehind
  have hbytes : encode text = encode (String.ofList before) ++ encode (String.ofList p) ++
      encode (String.ofList after) := by
    rw [← hencode, ← hencode, ← htext, String.ofList_toList]
  refine ⟨_, _, hbytes, by rw [hstart, Nat.zero_add, hsize], ?_⟩
  rcases hbehind with ⟨rfl, -, hnone⟩ | ⟨b, rest, hb, rfl, hnext⟩
  · exact .inl ⟨encode_empty, hnone⟩
  · refine .inr ⟨b, encode (String.ofList rest), hb, hencode _ _, ?_⟩
    rw [hnext, Nat.zero_add, hsize, hencode, hencode]
    rfl

/-- The lines of a text and the offsets at which lines start agree. There is an offset for each line,
and one more when the text is empty or ends with a break. Each line lies in the bytes where the line
with its number starts, with one break behind it, at whose end the next line starts, or at the end
of the text. So the offset of a line and a column is that many bytes into the line that is shown for
it; and the lines, in which no character ends a line, with their breaks behind them are the text. -/
theorem lines_agree_with_bytes (text : String) :
    ((lineStarts text).length =
        (lines text).length + if endsLine text.toList then 1 else 0) ∧
      (∀ i line, (lines text)[i]? = some line → LineInBytes text i line) ∧
      (∀ line : Nat, 1 ≤ line → line ≤ (lineStarts text).length →
        ∃ front behind, encode text = front ++ encode (lineText text line) ++ behind ∧
          ∀ column ≤ (encode (lineText text line)).length, offset? text line column =
            some ((front ++ (encode (lineText text line)).take column).length : Int)) ∧
      (∀ line ∈ lines text, ∀ c ∈ line.toList, isBreak c = false) ∧
      joined ((lines text).map String.toList) (lineBreaks text.toList) = text.toList := by
  have hstarts : (lineStarts text).length = (pieces text.toList).length := by
    rw [line_starts_eq, (pieces_lie 0 text.toList).length_eq]
  refine ⟨?_, fun i line h => ?_, fun line hpos hle => ?_, fun line h => ?_, joined_lines text⟩
  · rw [hstarts, pieces_length, lines_length]
    cases endsLine text.toList <;> rfl
  · have hline := piece_in_bytes (piece_of_line h)
    rwa [String.ofList_toList] at hline
  · obtain ⟨i, rfl⟩ : ∃ i, line = i + 1 := ⟨line - 1, by omega⟩
    have hi : i < (pieces text.toList).length := hstarts ▸ hle
    obtain ⟨front, behind, hbytes, hstart, -⟩ :=
      piece_in_bytes (List.getElem?_eq_getElem hi)
    rw [← line_text_of_piece (List.getElem?_eq_getElem hi)] at hbytes
    refine ⟨front, behind, hbytes, fun column hcolumn => ?_⟩
    have hindex : ((i + 1 : Nat) : Int) - 1 = i := by omega
    rw [offset?, hindex, item?, if_pos (Int.natCast_nonneg i), Int.toNat_natCast, hstart,
      List.length_append, List.length_take, Nat.min_eq_left hcolumn, Int.natCast_add]
    rfl
  · obtain ⟨i, hi⟩ := List.getElem?_of_mem h
    exact not_break_of_piece text.toList _ (List.mem_of_getElem? (piece_of_line hi))

/-- A pair of characters is one break, and one behind another ends an empty line. -/
def mixedBreaks : String := "é\r\n\r\n\rx\n"

theorem mixed_breaks_agree :
    lines mixedBreaks = ["é", "", "", "x"] ∧ lineStarts mixedBreaks = [0, 4, 6, 7, 9] ∧
      LineInBytes mixedBreaks 1 "" ∧
      (∃ front behind, encode mixedBreaks = front ++ encode (lineText mixedBreaks 4) ++ behind ∧
        offset? mixedBreaks 4 1 =
          some ((front ++ (encode (lineText mixedBreaks 4)).take 1).length : Int)) ∧
      isBreak 'x' = false := by
  have hlines : lines mixedBreaks = ["é", "", "", "x"] := by decide +kernel
  have hstarts : lineStarts mixedBreaks = [0, 4, 6, 7, 9] := by decide +kernel
  obtain ⟨-, hline, hoffset, hbreak, -⟩ := lines_agree_with_bytes mixedBreaks
  refine ⟨hlines, hstarts, hline 1 "" (by rw [hlines]; rfl), ?_, ?_⟩
  · obtain ⟨front, behind, hbytes, hcolumn⟩ := hoffset 4 (by decide) (by rw [hstarts]; decide)
    exact ⟨front, behind, hbytes, hcolumn 1 (by decide +kernel)⟩
  · exact hbreak "x" (by rw [hlines]; decide) 'x' (by decide)

end BacktestAudit.Source
