import BacktestAudit.Proofs.Syntax.Laid
import BacktestAudit.Source.Text

/-!
Line breaks in encoded text. No byte of a character is that of a line break unless the character is
one, so the breaks that are found in the bytes of a text are those of its characters.
-/
namespace BacktestAudit.Source
open BacktestAudit.Text BacktestAudit.Syntax
set_option autoImplicit false

/-! ## Bytes of characters -/

theorem not_break_iff {c : Char} : isBreak c = false ↔ c ≠ '\r' ∧ c ≠ '\n' := by
  rw [isBreak, Bool.or_eq_false_iff, beq_eq_false_iff_ne, beq_eq_false_iff_ne]

theorem size_of_break {c : Char} (h : isBreak c = true) : c.utf8Size = 1 := by
  simp only [isBreak, Bool.or_eq_true, beq_iff_eq] at h
  rcases h with rfl | rfl <;> rfl

theorem not_break_byte_iff {b : UInt8} :
    isBreakByte b = false ↔ b.toNat ≠ 13 ∧ b.toNat ≠ 10 := by
  rw [isBreakByte, Bool.or_eq_false_iff, beq_eq_false_iff_ne, beq_eq_false_iff_ne, Ne, Ne,
    ← UInt8.toNat_inj, ← UInt8.toNat_inj]
  rfl

/-- A character that ends no line has no byte that ends one. -/
theorem not_break_of_byte {c : Char} (hc : isBreak c = false) :
    ∀ b ∈ String.utf8EncodeChar c, isBreakByte b = false := by
  -- All bytes of a character that is not encoded as itself are large.
  have hlarge : ∀ n, 128 ≤ n → n < 256 → isBreakByte (UInt8.ofNat n) = false := by
    intro n hlow hhigh
    rw [not_break_byte_iff, UInt8.toNat_ofNat', Nat.mod_eq_of_lt hhigh]
    omega
  have hlater : ∀ n : Nat, isBreakByte (UInt8.ofNat (n % 64 + 128)) = false := fun n =>
    hlarge _ (by omega) (by omega)
  unfold String.utf8EncodeChar
  dsimp only
  split
  · next hascii =>
    obtain ⟨hreturn, hfeed⟩ := not_break_iff.mp hc
    refine List.forall_mem_singleton.mpr ?_
    rw [not_break_byte_iff, UInt8.toNat_ofNat', Nat.mod_eq_of_lt (by omega)]
    exact ⟨fun h => hreturn (Char.ext (UInt32.toNat_inj.mp h)),
      fun h => hfeed (Char.ext (UInt32.toNat_inj.mp h))⟩
  · split
    · simp only [List.forall_mem_cons]
      exact ⟨hlarge _ (by omega) (by omega), hlater _, nofun⟩
    · split
      · simp only [List.forall_mem_cons]
        exact ⟨hlarge _ (by omega) (by omega), hlater _, hlater _, nofun⟩
      · simp only [List.forall_mem_cons]
        exact ⟨hlarge _ (by omega) (by omega), hlater _, hlater _, hlater _, nofun⟩

theorem encode_of_list_cons (c : Char) (cs : List Char) :
    encode (String.ofList (c :: cs)) = String.utf8EncodeChar c ++ encode (String.ofList cs) := by
  rw [← encode_char, ← encode_append, ← String.ofList_append]
  rfl

theorem eq_feed_of_byte {cs : List Char} {more : List UInt8}
    (h : encode (String.ofList cs) = 10 :: more) : ∃ rest, cs = '\n' :: rest := by
  cases cs with
  | nil =>
    rw [String.ofList_nil, encode_empty] at h
    nomatch h
  | cons c cs =>
    rw [encode_of_list_cons] at h
    by_cases hfeed : c = '\n'
    · exact ⟨cs, by rw [hfeed]⟩
    · by_cases hreturn : c = '\r'
      · subst hreturn
        nomatch h
      · have hsize := c.utf8Size_pos
        rw [← String.length_utf8EncodeChar, List.length_pos_iff] at hsize
        obtain ⟨b, bs, hbytes⟩ := List.exists_cons_of_ne_nil hsize
        rw [hbytes] at h
        have hb := not_break_of_byte (not_break_iff.mpr ⟨hreturn, hfeed⟩) b
          (by rw [hbytes]; exact List.mem_cons_self ..)
        obtain rfl : b = 10 := (List.cons.inj h).1
        nomatch hb

/-! ## Breaks of characters -/

/-- The byte offsets behind the line breaks of characters that begin at an offset. -/
def breakEnds : Nat → List Char → List Nat
  | offset, '\r' :: '\n' :: rest => (offset + 2) :: breakEnds (offset + 2) rest
  | offset, c :: rest =>
    if isBreak c then (offset + 1) :: breakEnds (offset + 1) rest
    else breakEnds (offset + c.utf8Size) rest
  | _, [] => []

/-- A character that begins no pair of breaks. -/
theorem break_ends_cons {offset : Nat} {c : Char} {rest : List Char}
    (h : ∀ more, c = '\r' → rest = '\n' :: more → False) :
    breakEnds offset (c :: rest) =
      if isBreak c then (offset + 1) :: breakEnds (offset + 1) rest
      else breakEnds (offset + c.utf8Size) rest := by
  rw [breakEnds]
  exact h

/-- A byte that begins no pair of breaks. -/
theorem byte_break_ends_cons {offset : Nat} {b : UInt8} {rest : List UInt8}
    (h : ∀ more, b = 13 → rest = 10 :: more → False) :
    byteBreakEnds offset (b :: rest) =
      if isBreakByte b then (offset + 1) :: byteBreakEnds (offset + 1) rest
      else byteBreakEnds (offset + 1) rest := by
  rw [byteBreakEnds]
  exact h

theorem byte_break_ends_skip {bs : List UInt8} (h : ∀ b ∈ bs, isBreakByte b = false) (offset : Nat)
    (rest : List UInt8) :
    byteBreakEnds offset (bs ++ rest) = byteBreakEnds (offset + bs.length) rest := by
  induction bs generalizing offset with
  | nil => rfl
  | cons b bs ih =>
    obtain ⟨hb, hbs⟩ := List.forall_mem_cons.mp h
    have hpair : ∀ more, b = 13 → bs ++ rest = 10 :: more → False := by
      rintro more rfl _
      nomatch hb
    rw [List.cons_append, byte_break_ends_cons hpair, hb, if_neg Bool.false_ne_true, ih hbs,
      List.length_cons]
    congr 1
    omega

theorem byte_break_ends_eq (offset : Nat) (cs : List Char) :
    byteBreakEnds offset (encode (String.ofList cs)) = breakEnds offset cs := by
  fun_induction breakEnds offset cs with
  | case1 offset rest ih =>
    rw [encode_of_list_cons, encode_of_list_cons, ← ih]
    rfl
  | case2 offset c rest hpair hbreak ih =>
    rw [encode_of_list_cons, ← ih]
    simp only [isBreak, Bool.or_eq_true, beq_iff_eq] at hbreak
    rcases hbreak with rfl | rfl
    · refine byte_break_ends_cons fun more _ hfeed => ?_
      obtain ⟨rest', hrest⟩ := eq_feed_of_byte hfeed
      exact hpair rest' rfl hrest
    · exact byte_break_ends_cons fun _ h _ => nomatch h
  | case3 offset c rest _ hbreak ih =>
    have hc : isBreak c = false := Bool.eq_false_iff.mpr hbreak
    rw [encode_of_list_cons, byte_break_ends_skip (not_break_of_byte hc),
      String.length_utf8EncodeChar, ih]
  | case4 =>
    rw [String.ofList_nil, encode_empty]
    rfl

theorem line_starts_eq (text : String) : lineStarts text = 0 :: breakEnds 0 text.toList := by
  have h := byte_break_ends_eq 0 text.toList
  rw [String.ofList_toList] at h
  rw [lineStarts, h]

end BacktestAudit.Source
