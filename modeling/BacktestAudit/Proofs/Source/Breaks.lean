import BacktestAudit.Proofs.Source.Shown
import Mathlib.Data.List.Chain

/-!
Line breaks. The breaks of a text are those of its parts, in order, wherever it is cut but between
the two characters of a pair. A text has as many lines as it has breaks, and one more when it does
not end with a break.
-/
namespace BacktestAudit.Source
open BacktestAudit.Text BacktestAudit.Syntax
set_option autoImplicit false

/-- What ends a line: a carriage return, a line feed, or the two as a pair. -/
inductive LineBreak
  | carriageReturn
  | lineFeed
  | pair
  deriving DecidableEq, Repr

namespace LineBreak

def chars : LineBreak → List Char
  | carriageReturn => ['\r']
  | lineFeed => ['\n']
  | pair => ['\r', '\n']

end LineBreak

/-- The line breaks of a text in order. -/
def lineBreaks : List Char → List LineBreak
  | '\r' :: '\n' :: rest => .pair :: lineBreaks rest
  | '\r' :: rest => .carriageReturn :: lineBreaks rest
  | '\n' :: rest => .lineFeed :: lineBreaks rest
  | _ :: rest => lineBreaks rest
  | [] => []

/-! ## Cuts -/

/-- No pair of breaks is cut between two parts of a text. -/
def Parted (front behind : List Char) : Prop :=
  front.getLast? = some '\r' → behind.head? ≠ some '\n'

theorem Parted.tail {c : Char} {cs ds : List Char} (h : Parted (c :: cs) ds) : Parted cs ds := by
  intro hlast
  refine h ?_
  rw [List.getLast?_cons, hlast]
  rfl

theorem parted_of_head {c : Char} {cs ds : List Char} (hc : c ≠ '\n') : Parted cs (c :: ds) :=
  fun _ h => hc (Option.some.inj h)

theorem parted_nil (cs : List Char) : Parted cs [] := nofun

theorem nil_parted (cs : List Char) : Parted [] cs := nofun

theorem head_append_ne {cs ds : List Char} {c : Char} (h : cs.head? ≠ some c)
    (h' : cs = [] → ds.head? ≠ some c) : (cs ++ ds).head? ≠ some c := by
  cases cs with
  | nil => exact h' rfl
  | cons d cs => exact h

theorem line_breaks_return {cs : List Char} (h : cs.head? ≠ some '\n') :
    lineBreaks ('\r' :: cs) = .carriageReturn :: lineBreaks cs := by
  cases cs with
  | nil => rfl
  | cons c cs =>
    have hc : c ≠ '\n' := fun heq => h (congrArg some heq)
    rw [lineBreaks]
    exact fun rest heq => hc (List.cons.inj heq).1

theorem line_breaks_append {cs ds : List Char} (h : Parted cs ds) :
    lineBreaks (cs ++ ds) = lineBreaks cs ++ lineBreaks ds := by
  fun_induction lineBreaks cs with
  | case1 rest ih => exact congrArg _ (ih h.tail.tail)
  | case2 rest hpair ih =>
    have hhead : rest.head? ≠ some '\n' := by
      cases rest with
      | nil => nofun
      | cons c rest => exact fun heq => hpair rest (by rw [Option.some.inj heq])
    have hrest : (rest ++ ds).head? ≠ some '\n' :=
      head_append_ne hhead fun hnil => h (by rw [hnil]; rfl)
    rw [List.cons_append, line_breaks_return hrest, ih h.tail]
    rfl
  | case3 rest ih => exact congrArg _ (ih h.tail)
  | case4 c rest hpair hreturn hfeed ih =>
    rw [List.cons_append, lineBreaks, ih h.tail]
    · exact fun _ hc _ => hreturn hc
    · exact hreturn
    · exact hfeed
  | case5 => rfl

theorem line_breaks_eq_nil {cs : List Char} (h : ∀ c ∈ cs, isBreak c = false) :
    lineBreaks cs = [] := by
  fun_induction lineBreaks cs with
  | case1 rest | case2 rest | case3 rest =>
    have hbreak := h _ (List.mem_cons_self ..)
    nomatch hbreak
  | case4 c rest _ _ _ ih => exact ih fun d hd => h d (List.mem_cons_of_mem c hd)
  | case5 => rfl

theorem not_break_of_any {cs : List Char} (h : cs.any isBreak = false) :
    ∀ c ∈ cs, isBreak c = false :=
  fun c hc => Bool.eq_false_iff.mpr (List.any_eq_false.mp h c hc)

theorem line_breaks_append_plain (cs : List Char) {ds : List Char}
    (hds : ∀ c ∈ ds, isBreak c = false) : lineBreaks (cs ++ ds) = lineBreaks cs := by
  have hparted : Parted cs ds := by
    intro _ hhead
    nomatch hds '\n' (List.mem_of_head? hhead)
  rw [line_breaks_append hparted, line_breaks_eq_nil hds, List.append_nil]

theorem line_break_of_is_break {cs : List Char} {c : Char} (hc : c ∈ cs) (h : isBreak c = true) :
    lineBreaks cs ≠ [] := by
  fun_induction lineBreaks cs with
  | case1 | case2 | case3 => nofun
  | case4 d rest _ hreturn hfeed ih =>
    rcases List.mem_cons.mp hc with rfl | hc
    · rw [not_break_iff.mpr ⟨hreturn, hfeed⟩] at h
      nomatch h
    · exact ih hc
  | case5 => nomatch hc

theorem line_breaks_eq_nil_iff {cs : List Char} :
    lineBreaks cs = [] ↔ cs.any isBreak = false := by
  constructor
  · intro h
    refine List.any_eq_false.mpr fun c hc hbreak => ?_
    exact line_break_of_is_break hc hbreak h
  · exact fun h => line_breaks_eq_nil (not_break_of_any h)

/-! ## Texts without a kind of break -/

theorem return_mem_of_last {cs : List Char} (h : cs.getLast? = some '\r') :
    LineBreak.carriageReturn ∈ lineBreaks cs := by
  obtain ⟨front, rfl⟩ := List.getLast?_eq_some_iff.mp h
  rw [line_breaks_append (parted_of_head (by decide))]
  exact List.mem_append_right _ (List.mem_cons_self ..)

theorem feed_mem_of_head {cs : List Char} (h : cs.head? = some '\n') :
    LineBreak.lineFeed ∈ lineBreaks cs := by
  cases cs with
  | nil => nomatch h
  | cons c cs =>
    obtain rfl := Option.some.inj h
    exact List.mem_cons_self ..

theorem parted_of_not_mem {b : LineBreak} (hb : b ≠ .pair) {cs ds : List Char}
    (hcs : b ∉ lineBreaks cs) (hds : b ∉ lineBreaks ds) : Parted cs ds := by
  intro hlast hhead
  cases b with
  | carriageReturn => exact hcs (return_mem_of_last hlast)
  | lineFeed => exact hds (feed_mem_of_head hhead)
  | pair => exact hb rfl

/-! ## Lines -/

theorem break_ends_bounds (offset : Nat) (cs : List Char) : ∀ place ∈ breakEnds offset cs,
    offset < place ∧ place ≤ offset + sizeOfChars cs := by
  fun_induction breakEnds offset cs with
  | case1 offset rest ih =>
    refine List.forall_mem_cons.mpr ⟨⟨by omega, ?_⟩, fun place hplace => ?_⟩
    · rw [size_of_chars_cons, size_of_chars_cons]
      change offset + 2 ≤ offset + (1 + (1 + _))
      omega
    · have hbounds := ih place hplace
      rw [size_of_chars_cons, size_of_chars_cons]
      change offset < place ∧ place ≤ offset + (1 + (1 + _))
      omega
  | case2 offset c rest _ hbreak ih =>
    have hsize := size_of_break hbreak
    refine List.forall_mem_cons.mpr ⟨⟨by omega, ?_⟩, fun place hplace => ?_⟩
    · rw [size_of_chars_cons]
      omega
    · have hbounds := ih place hplace
      rw [size_of_chars_cons]
      omega
  | case3 offset c rest _ _ ih =>
    intro place hplace
    have hbounds := ih place hplace
    rw [size_of_chars_cons]
    omega
  | case4 => exact List.forall_mem_nil _

theorem break_ends_length (offset : Nat) (cs : List Char) :
    (breakEnds offset cs).length = (lineBreaks cs).length := by
  fun_induction lineBreaks cs generalizing offset with
  | case1 rest ih => exact congrArg (· + 1) (ih (offset + 2))
  | case2 rest hpair ih =>
    rw [break_ends_cons fun more _ heq => hpair more heq]
    exact congrArg (· + 1) (ih (offset + 1))
  | case3 rest ih => exact congrArg (· + 1) (ih (offset + 1))
  | case4 c rest _ hreturn hfeed ih =>
    have hbreak : isBreak c = false := not_break_iff.mpr ⟨hreturn, hfeed⟩
    rw [break_ends_cons fun _ heq _ => hreturn heq, hbreak]
    exact ih (offset + c.utf8Size)
  | case5 => rfl

theorem break_ends_append {cs ds : List Char} (h : Parted cs ds) (offset : Nat) :
    breakEnds offset (cs ++ ds) = breakEnds offset cs ++ breakEnds (offset + sizeOfChars cs) ds := by
  fun_induction breakEnds offset cs with
  | case1 offset rest ih =>
    have hsize : offset + sizeOfChars ('\r' :: '\n' :: rest) = offset + 2 + sizeOfChars rest := by
      rw [size_of_chars_cons, size_of_chars_cons]
      change offset + (1 + (1 + _)) = _
      omega
    rw [hsize]
    exact congrArg _ (ih h.tail.tail)
  | case2 offset c rest hpair hbreak ih =>
    have hpair' : ∀ more, c = '\r' → rest ++ ds = '\n' :: more → False := by
      rintro more rfl heq
      cases rest with
      | nil => exact h rfl (congrArg List.head? heq)
      | cons d rest => exact hpair rest rfl (by rw [(List.cons.inj heq).1])
    rw [List.cons_append, break_ends_cons hpair', if_pos hbreak, ih h.tail, size_of_chars_cons,
      size_of_break hbreak, Nat.add_assoc]
    rfl
  | case3 offset c rest hpair hbreak ih =>
    have hpair' : ∀ more, c = '\r' → rest ++ ds = '\n' :: more → False := by
      rintro more rfl _
      exact hbreak rfl
    rw [List.cons_append, break_ends_cons hpair', if_neg hbreak, ih h.tail, size_of_chars_cons,
      Nat.add_assoc]
  | case4 => rfl

/-- The number, counted from one, of the line that a place is on. -/
def lineAt (text : String) (place : Nat) : Nat := (lineStarts text).countP (· ≤ place)

theorem line_at_eq {text : String} {front behind : List Char} (htext : text.toList = front ++ behind)
    (h : Parted front behind) : lineAt text (sizeOfChars front) = (lineBreaks front).length + 1 := by
  have hbefore : (breakEnds 0 front).countP (· ≤ sizeOfChars front) = (lineBreaks front).length := by
    rw [← break_ends_length 0, List.countP_eq_length]
    intro place hplace
    have hbounds := break_ends_bounds 0 front place hplace
    exact decide_eq_true (by omega)
  have hbehind : (breakEnds (0 + sizeOfChars front) behind).countP (· ≤ sizeOfChars front) = 0 := by
    rw [List.countP_eq_zero]
    intro place hplace
    have hbounds := break_ends_bounds _ behind place hplace
    simp only [decide_eq_true_eq]
    omega
  rw [lineAt, line_starts_eq, htext, break_ends_append h, List.countP_cons_of_pos (by simp),
    List.countP_append, hbefore, hbehind]

/-! ## How many lines a text has -/

/-- Whether a text ends with a line break, or is empty. -/
def endsLine (cs : List Char) : Bool := cs.getLast?.all isBreak

theorem pieces_length (cs : List Char) : (pieces cs).length = (lineBreaks cs).length + 1 := by
  rw [← (pieces_lie 0 cs).length_eq, List.length_cons, break_ends_length]

theorem pieces_ne_nil (cs : List Char) : pieces cs ≠ [] := by
  intro h
  have hlength := pieces_length cs
  rw [h] at hlength
  nomatch hlength

theorem not_break_of_piece (cs : List Char) :
    ∀ p ∈ pieces cs, ∀ c ∈ p, isBreak c = false := by
  fun_induction pieces cs with
  | case1 rest ih | case2 _ rest _ _ ih => exact List.forall_mem_cons.mpr ⟨List.forall_mem_nil _, ih⟩
  | case3 c rest _ hbreak q qs hpieces ih =>
    rw [hpieces] at ih
    obtain ⟨hq, hqs⟩ := List.forall_mem_cons.mp ih
    have hc : isBreak c = false := Bool.eq_false_iff.mpr hbreak
    exact List.forall_mem_cons.mpr ⟨List.forall_mem_cons.mpr ⟨hc, hq⟩, hqs⟩
  | case4 c rest _ _ hpieces => exact absurd hpieces (pieces_ne_nil rest)
  | case5 => exact List.forall_mem_singleton.mpr (List.forall_mem_nil _)

theorem last_piece_cons (p : List Char) (cs : List Char) :
    (p :: pieces cs).getLast? = (pieces cs).getLast? := by
  obtain ⟨q, qs, hcs⟩ := List.exists_cons_of_ne_nil (pieces_ne_nil cs)
  rw [hcs, List.getLast?_cons_cons]

theorem ends_line_cons {c : Char} {cs : List Char} (h : cs = [] → isBreak c = true) :
    endsLine (c :: cs) = endsLine cs := by
  cases cs with
  | nil => exact h rfl
  | cons d cs => rw [endsLine, List.getLast?_cons_cons, endsLine]

theorem ends_line_concat (cs : List Char) (c : Char) : endsLine (cs ++ [c]) = isBreak c := by
  rw [endsLine, List.getLast?_concat]
  rfl

theorem ends_line_append (cs : List Char) {ds : List Char} (h : ds ≠ []) :
    endsLine (cs ++ ds) = endsLine ds := by
  rw [endsLine, List.getLast?_append_of_ne_nil _ h, endsLine]

theorem line_breaks_ne_nil_of_ends {cs : List Char} (hne : cs ≠ []) (h : endsLine cs = true) :
    lineBreaks cs ≠ [] := by
  rw [endsLine, List.getLast?_eq_some_getLast hne] at h
  exact line_break_of_is_break (List.getLast_mem hne) h

theorem last_piece_eq_nil_iff (cs : List Char) :
    (pieces cs).getLast? = some [] ↔ endsLine cs = true := by
  fun_induction pieces cs with
  | case1 rest ih =>
    have hpair : endsLine ('\r' :: '\n' :: rest) = endsLine ('\n' :: rest) :=
      ends_line_cons (absurd · (List.cons_ne_nil _ _))
    rw [last_piece_cons, ih, hpair, ends_line_cons fun _ => rfl]
  | case2 c rest _ hbreak ih => rw [last_piece_cons, ih, ends_line_cons fun _ => hbreak]
  | case3 c rest _ hbreak p ps hpieces ih =>
    have hlength := pieces_length rest
    rw [hpieces] at ih hlength
    cases rest with
    | nil =>
      obtain ⟨rfl, rfl⟩ := List.cons.inj hpieces
      refine ⟨fun h => ?_, fun h => absurd h hbreak⟩
      exact absurd (Option.some.inj h) (List.cons_ne_nil c [])
    | cons d rest =>
      have hrest : endsLine (c :: d :: rest) = endsLine (d :: rest) :=
        ends_line_cons (absurd · (List.cons_ne_nil _ _))
      rw [hrest, ← ih]
      cases ps with
      | nil =>
        refine ⟨fun h => absurd (Option.some.inj h) (List.cons_ne_nil c p), fun h => ?_⟩
        have hne := line_breaks_ne_nil_of_ends (List.cons_ne_nil d rest) (ih.mp h)
        exact absurd (List.eq_nil_of_length_eq_zero (Nat.succ_inj.mp hlength).symm) hne
      | cons q ps => rw [List.getLast?_cons_cons, List.getLast?_cons_cons]
  | case4 c rest _ _ hpieces => exact absurd hpieces (pieces_ne_nil rest)
  | case5 => exact ⟨fun _ => rfl, fun _ => rfl⟩

/-- A text has a line for each break, and one more when it does not end with a break. -/
theorem lines_length (text : String) : (lines text).length =
    (lineBreaks text.toList).length + if endsLine text.toList then 0 else 1 := by
  simp only [lines, List.length_map, last_piece_eq_nil_iff]
  split
  · rw [List.length_dropLast, pieces_length, Nat.add_sub_cancel]
    rfl
  · rw [pieces_length]

end BacktestAudit.Source
