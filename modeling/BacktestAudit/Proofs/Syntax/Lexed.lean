import BacktestAudit.Proofs.Syntax.Laid
import BacktestAudit.Syntax.Lexer

/-!
The places of tokens. Each reader of the lexer takes a lexeme off the front of a run and leaves what
stands behind it, so the tokens that stand for characters of a text follow one another in its bytes.
-/
namespace BacktestAudit.Syntax.Lexer
set_option autoImplicit false

/-! ## Readers -/

/-- What is left of a run behind some characters none of which ends a line. -/
def Skips (gs left : List Glyph) : Prop :=
  ∃ taken, gs = taken ++ left ∧ ∀ g ∈ taken, g.char ≠ '\n'

namespace Skips

variable {g : Glyph} {gs mid left : List Glyph}

theorem refl (gs : List Glyph) : Skips gs gs := ⟨[], rfl, nofun⟩

theorem trans (h : Skips gs mid) (h' : Skips mid left) : Skips gs left := by
  obtain ⟨taken, rfl, hline⟩ := h
  obtain ⟨more, rfl, hline'⟩ := h'
  exact ⟨taken ++ more, (List.append_assoc ..).symm, List.forall_mem_append.mpr ⟨hline, hline'⟩⟩

theorem cons (hg : g.char ≠ '\n') (h : Skips gs left) : Skips (g :: gs) left := by
  obtain ⟨taken, rfl, hline⟩ := h
  exact ⟨g :: taken, rfl, List.forall_mem_cons.mpr ⟨hg, hline⟩⟩

theorem one (hg : g.char ≠ '\n') : Skips (g :: gs) gs := .cons hg (.refl gs)

theorem of_bind {f k : List Glyph → Option (List Glyph)} (hf : ∀ mid, f gs = some mid → Skips gs mid)
    (hk : ∀ mid, k mid = some left → Skips mid left) (h : (f gs).bind k = some left) :
    Skips gs left := by
  obtain ⟨mid, hmid, hleft⟩ := Option.bind_eq_some_iff.mp h
  exact (hf mid hmid).trans (hk mid hleft)

end Skips

/-- A class of characters none of which ends a line. -/
def InLine (test : Char → Bool) : Prop := test '\n' = false

theorem InLine.ne {test : Char → Bool} (h : InLine test) {c : Char} (hc : test c = true) :
    c ≠ '\n' := by
  rintro rfl
  exact Bool.false_ne_true (h.symm.trans hc)

theorem ne_newline_of_eq {c d : Char} (h : c = d) (hd : d ≠ '\n') : c ≠ '\n' := h ▸ hd

theorem in_line_digit : InLine Char.isDigit := rfl

theorem digit_tail_skips {isDigit : Char → Bool} (hdigit : InLine isDigit) {gs left : List Glyph}
    (h : digitTail isDigit gs = some left) : Skips gs left := by
  fun_induction digitTail isDigit gs with
  | case1 a b rest ha ih => exact .cons (hdigit.ne ha) (ih h)
  | case2 a b rest _ ha _ ih => exact .cons (ne_newline_of_eq ha (by decide)) (ih h)
  | case3 => cases h
  | case4 => exact Option.some.inj h ▸ .refl _
  | case5 a ha => exact Option.some.inj h ▸ .one (hdigit.ne ha)
  | case6 => cases h
  | case7 => exact Option.some.inj h ▸ .refl _
  | case8 => exact Option.some.inj h ▸ .refl _

theorem digit_tail_skips_of_digit {isDigit : Char → Bool} (hdigit : InLine isDigit) {g : Glyph}
    {rest left : List Glyph} (hg : isDigit g.char = true)
    (h : digitTail isDigit (g :: rest) = some left) : Skips rest left := by
  cases rest with
  | nil =>
    rw [digitTail, if_pos hg] at h
    exact Option.some.inj h ▸ .refl _
  | cons b rest =>
    rw [digitTail, if_pos hg] at h
    exact digit_tail_skips hdigit h

theorem end_number_skips {gs left : List Glyph} (h : endNumber gs = some left) : Skips gs left := by
  unfold endNumber at h
  split at h
  · exact Option.some.inj h ▸ .refl _
  · cases h

theorem imaginary_skips {gs left : List Glyph} (h : imaginary gs = some left) : Skips gs left := by
  have hmark : InLine isImaginaryMark := rfl
  unfold imaginary at h
  split at h
  · split at h
    · next hg => exact .cons (hmark.ne hg) (end_number_skips h)
    · exact end_number_skips h
  · exact Option.some.inj h ▸ .refl _

theorem exponent_skips {gs left : List Glyph} (h : exponent gs = some left) : Skips gs left := by
  have hdigits : ∀ {ds : List Glyph}, (digitTail Char.isDigit ds).bind imaginary = some left →
      Skips ds left :=
    Skips.of_bind (fun _ => digit_tail_skips in_line_digit) fun _ => imaginary_skips
  have hmark : InLine isExponentMark := rfl
  unfold exponent at h
  split at h
  · next e s d rest =>
    split at h
    · next he =>
      split at h
      · next hs =>
        have hs : s.char ≠ '\n' := by
          rcases hs with hs | hs <;> exact ne_newline_of_eq hs (by decide)
        split at h
        · exact .cons (hmark.ne he) (.cons hs (hdigits h))
        · cases h
      · split at h
        · exact .cons (hmark.ne he) (hdigits h)
        · exact end_number_skips h
    · exact imaginary_skips h
  · split at h
    · next hboth =>
      obtain ⟨he, hs⟩ := Bool.and_eq_true_iff.mp hboth
      exact Option.some.inj h ▸ .cons (hmark.ne he) (.one (in_line_digit.ne hs))
    · exact imaginary_skips h
  · exact imaginary_skips h

theorem fraction_skips {gs left : List Glyph} (h : fraction gs = some left) : Skips gs left := by
  unfold fraction at h
  split at h
  · split at h
    · exact .of_bind (fun _ => digit_tail_skips in_line_digit) (fun _ => exponent_skips) h
    · exact exponent_skips h
  · exact Option.some.inj h ▸ .refl _

theorem fraction_or_exponent_skips {gs left : List Glyph}
    (h : fractionOrExponent gs = some left) : Skips gs left := by
  unfold fractionOrExponent at h
  split at h
  · split at h
    · next hg => exact .cons (ne_newline_of_eq hg (by decide)) (fraction_skips h)
    · exact exponent_skips h
  · exact Option.some.inj h ▸ .refl _

theorem based_digits_skips {isDigit : Char → Bool} (hdigit : InLine isDigit) {d : Glyph}
    {rest left : List Glyph}
    (h : (if isDigit d.char then (digitTail isDigit (d :: rest)).bind endNumber else none) =
      some left) : Skips (d :: rest) left := by
  split at h
  · exact .of_bind (fun _ => digit_tail_skips hdigit) (fun _ => end_number_skips) h
  · cases h

theorem based_skips {isDigit : Char → Bool} (hdigit : InLine isDigit) {gs left : List Glyph}
    (h : based isDigit gs = some left) : Skips gs left := by
  cases gs with
  | nil => cases h
  | cons g rest =>
    by_cases hg : g.char = '_'
    · simp only [based, if_pos hg] at h
      cases rest with
      | nil => cases h
      | cons d rest =>
        exact .cons (ne_newline_of_eq hg (by decide)) (based_digits_skips hdigit h)
    · simp only [based, if_neg hg] at h
      exact based_digits_skips hdigit h

theorem zeros_skips {gs left : List Glyph} (h : zeros gs = some left) : Skips gs left := by
  fun_induction zeros gs with
  | case1 a b rest ha ih => exact .cons (ne_newline_of_eq ha (by decide)) (ih h)
  | case2 a b rest _ ha _ ih => exact .cons (ne_newline_of_eq ha (by decide)) (ih h)
  | case3 => cases h
  | case4 => exact Option.some.inj h ▸ .refl _
  | case5 a ha => exact Option.some.inj h ▸ .one (ne_newline_of_eq ha (by decide))
  | case6 => cases h
  | case7 => exact Option.some.inj h ▸ .refl _
  | case8 => exact Option.some.inj h ▸ .refl _

theorem after_zero_skips {gs left : List Glyph} (h : afterZero gs = some left) :
    Skips gs left := by
  obtain ⟨rest, hrest, h⟩ := Option.bind_eq_some_iff.mp h
  refine (zeros_skips hrest).trans ?_
  cases rest with
  | nil => exact Option.some.inj h ▸ .refl _
  | cons g rest =>
    simp only at h
    split at h
    · obtain ⟨tail, htail, h⟩ := Option.bind_eq_some_iff.mp h
      refine (digit_tail_skips in_line_digit htail).trans ?_
      cases tail with
      | nil => cases h
      | cons t tail =>
        simp only at h
        split at h
        · exact fraction_or_exponent_skips h
        · cases h
    · exact fraction_or_exponent_skips h

theorem number_skips {g : Glyph} {rest left : List Glyph} (hg : g.char.isDigit = true)
    (h : number (g :: rest) = some left) : Skips rest left := by
  have hbase : ∀ {b : Glyph} {c d : Char}, (b.char = c || b.char = d) = true → c ≠ '\n' →
      d ≠ '\n' → b.char ≠ '\n' := by
    intro b c d hb hc hd
    rw [Bool.or_eq_true, decide_eq_true_eq, decide_eq_true_eq] at hb
    rcases hb with hb | hb
    · exact ne_newline_of_eq hb hc
    · exact ne_newline_of_eq hb hd
  have hhex : InLine isHexDigit := rfl
  have hoctal : InLine isOctalDigit := rfl
  have hbinary : InLine isBinaryDigit := rfl
  unfold number at h
  simp only at h
  split at h
  · split at h
    · split at h
      · next hb => exact .cons (hbase hb (by decide) (by decide)) (based_skips hhex h)
      · split at h
        · next hb => exact .cons (hbase hb (by decide) (by decide)) (based_skips hoctal h)
        · split at h
          · next hb => exact .cons (hbase hb (by decide) (by decide)) (based_skips hbinary h)
          · exact after_zero_skips h
    · exact Option.some.inj h ▸ .refl _
  · obtain ⟨mid, hmid, hleft⟩ := Option.bind_eq_some_iff.mp h
    exact (digit_tail_skips_of_digit in_line_digit hg hmid).trans (fraction_or_exponent_skips hleft)

/-! ## Strings -/

/-- What is left of a run behind a character that ends no line. -/
def TakesTo (gs left : List Glyph) : Prop :=
  ∃ taken last, gs = taken ++ last :: left ∧ last.char ≠ '\n'

namespace TakesTo

variable {g : Glyph} {gs mid left : List Glyph}

theorem cons (g : Glyph) (h : TakesTo gs left) : TakesTo (g :: gs) left := by
  obtain ⟨taken, last, rfl, hlast⟩ := h
  exact ⟨g :: taken, last, rfl, hlast⟩

theorem of_suffix (h : TakesTo mid left) (hsuffix : mid <:+ gs) : TakesTo gs left := by
  obtain ⟨taken, last, rfl, hlast⟩ := h
  obtain ⟨more, rfl⟩ := hsuffix
  exact ⟨more ++ taken, last, (List.append_assoc ..).symm, hlast⟩

theorem of_skips (hg : g.char ≠ '\n') (h : Skips gs left) : TakesTo (g :: gs) left := by
  obtain ⟨taken, rfl, hline⟩ := h
  induction taken generalizing g with
  | nil => exact ⟨[], g, rfl, hg⟩
  | cons d taken ih =>
    obtain ⟨hd, hline⟩ := List.forall_mem_cons.mp hline
    exact (ih hd hline).cons g

end TakesTo

theorem string_body_takes {quote : Char} (hquote : quote ≠ '\n') {size seen : Nat}
    {gs left : List Glyph} (h : stringBody quote size seen gs = some left) : TakesTo gs left := by
  fun_induction stringBody quote size seen gs with
  | case1 => cases h
  | case2 _ g rest hg => exact Option.some.inj h ▸ ⟨[], g, rfl, ne_newline_of_eq hg hquote⟩
  | case3 _ g rest _ _ ih => exact (ih h).cons g
  | case4 => cases h
  | case5 => cases h
  | case6 _ g _ _ _ n hidden ih => exact ((ih h).cons n).cons g
  | case7 _ g rest _ _ _ ih => exact (ih h).cons g

theorem quoted_takes {q : Glyph} (hq : q.char ≠ '\n') {rest left : List Glyph}
    (h : quoted (q :: rest) = some left) : TakesTo (q :: rest) left := by
  unfold quoted at h
  simp only at h
  split at h
  · next a b more =>
    split at h
    · next ha =>
      split at h
      · exact (((string_body_takes hq h).cons b).cons a).cons q
      · exact Option.some.inj h ▸ ⟨[q], a, rfl, ne_newline_of_eq ha hq⟩
    · exact (string_body_takes hq h).cons q
  · exact (string_body_takes hq h).cons q

theorem is_alpha_of_quote {c : Char} (h : isQuote c = true) : c.isAlpha = false := by
  unfold isQuote at h
  rcases Bool.or_eq_true_iff.mp h with h | h <;> rw [beq_iff_eq.mp h] <;> rfl

theorem marked_string_eq_some {gs body : List Glyph} (h : markedString? gs = some body) :
    body <:+ gs ∧ ∃ q rest, body = q :: rest ∧ isQuote q.char = true := by
  simp only [markedString?] at h
  split at h
  · next q rest hdrop =>
    split at h
    · next hmarked =>
      obtain rfl := Option.some.inj h
      exact ⟨hdrop ▸ List.drop_suffix .., q, rest, rfl, (Bool.and_eq_true_iff.mp hmarked).1⟩
    · cases h
  · cases h

theorem marked_string_of_quote {g : Glyph} {rest : List Glyph} (hg : isQuote g.char = true) :
    markedString? (g :: rest) = some (g :: rest) := by
  have hmark : (g :: rest).takeWhile (·.char.isAlpha) = [] := by
    rw [List.takeWhile_cons_of_neg]
    rw [is_alpha_of_quote hg]
    exact Bool.false_ne_true
  unfold markedString?
  rw [hmark]
  simp only [List.length_nil, List.drop_zero, hg, Glyph.chars, List.map_nil, Bool.true_and]
  rfl

theorem marked_string_takes {gs body left : List Glyph} (hbody : markedString? gs = some body)
    (h : quoted body = some left) : TakesTo gs left := by
  obtain ⟨hsuffix, q, more, rfl, hquote⟩ := marked_string_eq_some hbody
  have hline : InLine isQuote := rfl
  exact (quoted_takes (hline.ne hquote) h).of_suffix hsuffix

/-! ## Operators and words -/

theorem operator_length_pos (gs : List Glyph) : 0 < operatorLength gs := by
  have hall : ∀ op ∈ operators, 0 < op.length := by decide
  unfold operatorLength
  split
  · next op hop => exact hall op (List.mem_of_find?_eq_some hop)
  · exact Nat.one_pos

theorem drop_operator_takes {g : Glyph} (hg : g.char ≠ '\n') (rest : List Glyph) :
    TakesTo (g :: rest) ((g :: rest).drop (operatorLength (g :: rest))) := by
  have hall : (operators.all fun op => op.toList.all (· ≠ '\n')) = true := by decide +kernel
  have hlines : ∀ d ∈ (g :: rest).take (operatorLength (g :: rest)), d.char ≠ '\n' := by
    unfold operatorLength
    split
    · next op hop =>
      have hstarts := List.find?_some hop
      have hchars : op.toList = ((g :: rest).take op.length).map (·.char) :=
        beq_iff_eq.mp hstarts
      intro d hd
      have hop' := List.all_eq_true.mp hall op (List.mem_of_find?_eq_some hop)
      have hd' := List.all_eq_true.mp hop' d.char (hchars ▸ List.mem_map_of_mem hd)
      exact of_decide_eq_true hd'
    · intro d hd
      obtain rfl := List.mem_singleton.mp hd
      exact hg
  have hpos := operator_length_pos (g :: rest)
  cases hn : operatorLength (g :: rest) with
  | zero => omega
  | succ n =>
    rw [hn] at hlines
    refine .of_skips hg ⟨rest.take n, ?_, fun d hd => hlines d (List.mem_cons_of_mem g hd)⟩
    rw [List.drop_succ_cons, List.take_append_drop]

theorem word_char_of_start {c : Char} (h : isWordStart c = true) : isWordChar c = true := by
  simp only [isWordStart, isWordChar, Char.isAlphanum, Bool.or_eq_true] at *
  rcases h with (h | h) | h
  · exact .inl (.inl (.inl h))
  · exact .inl (.inr h)
  · exact .inr h

theorem measure_suffix {m m' : Margin} {gs rest : List Glyph} (h : m.measure gs = .ok (m', rest)) :
    rest <:+ gs := by
  fun_induction Margin.measure m gs with
  | case1 => exact (Prod.mk.inj (Except.ok.inj h)).2 ▸ List.suffix_refl _
  | case2 _ g rest _ ih => exact (ih h).trans (List.suffix_cons ..)
  | case3 _ g rest _ _ ih => exact (ih h).trans (List.suffix_cons ..)
  | case4 _ g rest _ _ _ ih => exact (ih h).trans (List.suffix_cons ..)
  | case5 => cases h
  | case6 _ g _ _ _ _ n _ more _ ih =>
    exact (ih h).trans ((List.suffix_cons n _).trans (List.suffix_cons g _))
  | case7 => cases h
  | case8 => cases h
  | case9 => exact (Prod.mk.inj (Except.ok.inj h)).2 ▸ List.suffix_refl _

/-! ## Lexemes -/

theorem ne_newline_of_word {c : Char} (h : isWordChar c = true) : c ≠ '\n' := by
  rintro rfl
  cases h

/-- The glyphs of a token. They begin and end inside a line, and a word is all of word characters. -/
structure Lexeme (kind : TokenKind) (lexeme : List Glyph) : Prop where
  begins : ∃ first more, lexeme = first :: more ∧ first.char ≠ '\n'
  ends : ∃ taken last, lexeme = taken ++ [last] ∧ last.char ≠ '\n'
  word : kind = .name ∨ kind = .keyword → ∀ g ∈ lexeme, isWordChar g.char = true

/-- A lexeme stands at the front of a run, before what is left of it. -/
def Fronts (kind : TokenKind) (gs left : List Glyph) : Prop :=
  ∃ lexeme, gs = lexeme ++ left ∧ Lexeme kind lexeme

theorem TakesTo.fronts {g : Glyph} {rest left : List Glyph} (h : TakesTo (g :: rest) left)
    (hg : g.char ≠ '\n') {kind : TokenKind} (hkind : ¬(kind = .name ∨ kind = .keyword)) :
    Fronts kind (g :: rest) left := by
  obtain ⟨taken, last, heq, hlast⟩ := h
  refine ⟨taken ++ [last], by rw [heq, List.append_assoc]; rfl, ?_, ⟨taken, last, rfl, hlast⟩,
    (absurd · hkind)⟩
  cases taken with
  | nil => exact ⟨last, [], rfl, hlast⟩
  | cons d more =>
    obtain rfl := (List.cons.inj heq).1
    exact ⟨g, more ++ [last], rfl, hg⟩

theorem word_fronts {g : Glyph} {rest : List Glyph} (hg : isWordChar g.char = true)
    (kind : TokenKind) : Fronts kind (g :: rest) ((g :: rest).dropWhile (isWordChar ·.char)) := by
  have hword : ∀ d ∈ (g :: rest).takeWhile (isWordChar ·.char), isWordChar d.char = true :=
    List.all_eq_true.mp List.all_takeWhile
  have hcons : (g :: rest).takeWhile (isWordChar ·.char) =
      g :: rest.takeWhile (isWordChar ·.char) := List.takeWhile_cons_of_pos hg
  refine ⟨_, List.takeWhile_append_dropWhile.symm, ⟨g, _, hcons, ne_newline_of_word hg⟩, ?_,
    fun _ => hword⟩
  have hne : (g :: rest).takeWhile (isWordChar ·.char) ≠ [] := hcons ▸ List.cons_ne_nil _ _
  exact ⟨_, _, (List.dropLast_concat_getLast hne).symm,
    ne_newline_of_word (hword _ (List.getLast_mem hne))⟩

theorem before_append {lo hi : Nat} {lexeme left : List Glyph}
    (h : Laid lo hi (lexeme ++ left)) : before (lexeme ++ left) left = lexeme := by
  cases left with
  | nil => exact List.append_nil _
  | cons r left =>
    have hcross := (List.pairwise_append.mp h.ordered).2.2
    have hbefore : ∀ g ∈ lexeme, decide (g.start < r.start) = true := fun g hg => by
      have hnext := hcross g hg r (List.mem_cons_self ..)
      exact decide_eq_true (by omega)
    change (lexeme ++ r :: left).takeWhile (·.start < r.start) = lexeme
    rw [List.takeWhile_append_of_pos hbefore]
    simp

theorem token_stop {kind : TokenKind} {taken : List Glyph} {last : Glyph} {depth : Nat} :
    (token kind (taken ++ [last]) depth).stop = last.stop := by
  change ((taken ++ [last]).getLastD _).stop = _
  rw [List.getLastD_concat]

/-! ## Runs -/

/-- What is kept while tokens are read: of the tokens so far and what is left of the glyphs. -/
structure Kept (I : Array Token → List Glyph → Prop) : Prop where
  laid {tokens : Array Token} {gs : List Glyph} : I tokens gs → ∃ lo hi, Laid lo hi gs
  suffix {tokens : Array Token} {gs left : List Glyph} : I tokens gs → left <:+ gs → I tokens left
  layout {tokens : Array Token} {gs : List Glyph} {ts : List Token} :
    I tokens gs → (∀ t ∈ ts, t.isLayout ≠ false) → I (tokens ++ ts.toArray) gs
  lexeme {tokens : Array Token} {lexeme left : List Glyph} {kind : TokenKind} (depth : Nat) :
    I tokens (lexeme ++ left) → Lexeme kind lexeme → I (tokens.push (token kind lexeme depth)) left

namespace Kept

variable {I : Array Token → List Glyph → Prop} (hI : Kept I)
variable {tokens : Array Token} {g : Glyph} {gs rest left : List Glyph}
include hI

theorem tail (h : I tokens (g :: rest)) (hsuffix : left <:+ rest) : I tokens left :=
  hI.suffix h (hsuffix.trans (List.suffix_cons g rest))

theorem push_layout (h : I tokens gs) {t : Token} (ht : t.isLayout ≠ false) :
    I (tokens.push t) gs := by
  have happend := hI.layout h (List.forall_mem_singleton.mpr ht)
  rwa [← Array.push_eq_append] at happend

theorem push_token (h : I tokens gs) {kind : TokenKind} (hfronts : Fronts kind gs left)
    (depth : Nat) : I (tokens.push (token kind (before gs left) depth)) left := by
  obtain ⟨lexeme, rfl, hlexeme⟩ := hfronts
  obtain ⟨lo, hi, hlaid⟩ := hI.laid h
  rw [before_append hlaid]
  exact hI.lexeme depth h hlexeme

theorem push_one (h : I tokens (g :: rest)) (hg : g.char ≠ '\n') (depth : Nat) :
    I (tokens.push (token .operator [g] depth)) rest := by
  have hone : Lexeme .operator [g] := ⟨⟨g, [], rfl, hg⟩, ⟨[], g, rfl, hg⟩, nofun⟩
  exact hI.lexeme depth h hone

theorem enter_margin (h : I tokens gs) {c c' : Context} {columns : Nat × Nat} {line : Nat}
    {tokens' : Array Token} (henter : enterMargin tokens c columns line = .ok (tokens', c')) :
    I tokens' gs := by
  unfold enterMargin at henter
  simp only at henter
  split at henter
  · split at henter
    · exact (Prod.mk.inj (Except.ok.inj henter)).1 ▸ h
    · cases henter
  · split at henter
    · split at henter
      · cases henter
      · split at henter
        · cases henter
        · rw [← (Prod.mk.inj (Except.ok.inj henter)).1]
          exact hI.push_layout h nofun
    · split at henter
      · cases henter
      · split at henter
        · cases henter
        · rw [← (Prod.mk.inj (Except.ok.inj henter)).1]
          refine hI.layout h fun t ht => ?_
          rw [List.eq_of_mem_replicate ht]
          nofun

end Kept

theorem break_off_at_end_tokens (tokens : Array Token) (c : Context) (fault : Fault) :
    (breakOffAtEnd tokens c fault).tokens = tokens := by
  unfold breakOffAtEnd
  split <;> rfl

/-- What is kept holds of all tokens of a run, with something left. -/
def Ends (I : Array Token → List Glyph → Prop) (stream : TokenStream) : Prop :=
  ∃ left, I stream.tokens left

theorem ends_at_end {I : Array Token → List Glyph → Prop} {tokens : Array Token} {gs : List Glyph}
    (h : I tokens gs) (c : Context) (fault : Fault) : Ends I (breakOffAtEnd tokens c fault) :=
  ⟨gs, (break_off_at_end_tokens tokens c fault).symm ▸ h⟩

theorem Ends.ite {I : Array Token → List Glyph → Prop} {p : Prop} [Decidable p]
    {taken other : TokenStream} (htaken : p → Ends I taken) (hother : ¬ p → Ends I other) :
    Ends I (if p then taken else other) := by
  split
  · next h => exact htaken h
  · next h => exact hother h

/-- At the start of a line, a step opens or closes blocks and goes on with what stands there. -/
theorem run_at_start {I : Array Token → List Glyph → Prop} (hI : Kept I) {lastLine fuel : Nat}
    {c : Context} {gs : List Glyph} {tokens : Array Token} (h : I tokens gs)
    (ih : ∀ {b c gs tokens}, I tokens gs → Ends I (run lastLine fuel b c gs tokens)) :
    Ends I (run lastLine (fuel + 1) true c gs tokens) := by
  unfold run
  cases hmeasure : Margin.measure ⟨0, 0, 0⟩ gs with
  | error fault =>
    simp only
    split
    · exact ends_at_end h c fault
    · exact ⟨gs, h⟩
  | ok mr =>
    obtain ⟨m, rest⟩ := mr
    have hrest := hI.suffix h (measure_suffix hmeasure)
    cases rest with
    | cons g rest =>
      simp only
      split
      · exact ih (hI.suffix hrest ((List.drop_suffix ..).trans (List.dropWhile_suffix _)))
      · split
        · split
          · next henter => exact ih (hI.enter_margin hrest henter)
          · exact ⟨gs, h⟩
        · exact ih hrest
    | nil =>
      simp only
      split
      · split
        · next henter =>
          have hfinish : (layout .finish lastLine 0).isLayout ≠ false := nofun
          exact ⟨[], hI.push_layout (hI.enter_margin hrest henter) hfinish⟩
        · exact ⟨gs, h⟩
      · exact ends_at_end h c _

theorem word_char_of_unmarked {g : Glyph} {rest : List Glyph}
    (hstart : (isWordStart g.char || isQuote g.char) = true)
    (hmarked : markedString? (g :: rest) = none) : isWordChar g.char = true := by
  rcases Bool.or_eq_true_iff.mp hstart with hstart | hquote
  · exact word_char_of_start hstart
  · rw [marked_string_of_quote hquote] at hmarked
    cases hmarked

/-- A number takes its first glyph, whether that is a digit or a point. -/
theorem fraction_or_number_skips {g : Glyph} {rest left : List Glyph} {fractional : Bool}
    (hstart : (g.char.isDigit || (g.char = '.' && fractional)) = true)
    (h : (if g.char = '.' then fraction rest else number (g :: rest)) = some left) :
    Skips rest left := by
  split at h
  · exact fraction_skips h
  · next hpoint =>
    rcases Bool.or_eq_true_iff.mp hstart with hdigit | hfraction
    · exact number_skips hdigit h
    · exact absurd (of_decide_eq_true (Bool.and_eq_true_iff.mp hfraction).1) hpoint

/-- Inside a line, a step reads a token or skips what is none. -/
theorem run_inside {I : Array Token → List Glyph → Prop} (hI : Kept I) {lastLine fuel : Nat}
    {c : Context} {gs : List Glyph} {tokens : Array Token} (h : I tokens gs)
    (ih : ∀ {b c gs tokens}, I tokens gs → Ends I (run lastLine fuel b c gs tokens)) :
    Ends I (run lastLine (fuel + 1) false c gs tokens) := by
  unfold run
  cases gs with
  | nil => exact ends_at_end h c _
  | cons g rest =>
    have hrest := hI.tail h (List.suffix_refl rest)
    refine .ite (fun _ => ih hrest) fun _ => ?_
    -- A comment.
    refine .ite (fun _ => ih (hI.suffix h (List.dropWhile_suffix _))) fun _ => ?_
    -- The end of a line; in brackets it is no token.
    refine .ite (fun _ => ?_) fun hg => ?_
    · have hnewline : (layout .newline g.line 0).isLayout ≠ false := nofun
      exact .ite (fun _ => ih (hI.push_layout hrest hnewline)) fun _ => ih hrest
    -- A line that goes on behind a backslash.
    refine .ite (fun _ => ?_) fun _ => ?_
    · cases rest with
      | nil => exact ⟨_, h⟩
      | cons n more =>
        refine .ite (fun _ => ?_) fun _ => ⟨_, h⟩
        cases more with
        | nil => exact ends_at_end h c _
        | cons m more => exact ih (hI.tail hrest (List.suffix_refl _))
    -- A string with its prefix, or a word.
    refine .ite (fun hstart => ?_) fun _ => ?_
    · cases hmarked : markedString? (g :: rest) with
      | some body =>
        cases hquoted : quoted body with
        | some left =>
          have hstring : Fronts .string (g :: rest) left :=
            (marked_string_takes hmarked hquoted).fronts hg nofun
          simp only [hquoted]
          exact ih (hI.push_token h hstring _)
        | none =>
          simp only [hquoted]
          exact ⟨_, h⟩
      | none =>
        have hword := word_char_of_unmarked hstart hmarked
        refine .ite (fun _ => ih (hI.push_token h (word_fronts hword _) _)) fun _ => ?_
        split
        · exact ⟨_, h⟩
        · exact ih (hI.push_token h (word_fronts hword _) _)
    refine .ite (fun hnumber => ?_) fun _ => ?_
    · split
      · next left hleft =>
        have hskips := fraction_or_number_skips hnumber hleft
        have hfronts : Fronts .number (g :: rest) left :=
          (TakesTo.of_skips hg hskips).fronts hg nofun
        exact ih (hI.push_token h hfronts _)
      · exact ⟨_, h⟩
    -- A bracket is a token of one glyph; other operators are as long as they can be.
    refine .ite (fun _ => .ite (fun _ => ⟨_, h⟩) fun _ => ih (hI.push_one h hg _)) fun _ => ?_
    refine .ite (fun _ => ?_) fun _ => ?_
    · split
      · exact .ite (fun _ => ih (hI.push_one h hg _)) fun _ => ⟨_, h⟩
      · exact ⟨_, h⟩
    refine .ite (fun _ => ⟨_, h⟩) fun _ => ?_
    have hfronts : Fronts .operator (g :: rest) _ := (drop_operator_takes hg rest).fronts hg nofun
    exact ih (hI.push_token h hfronts _)

theorem run_keeps {I : Array Token → List Glyph → Prop} (hI : Kept I) {lastLine fuel : Nat}
    {atStart : Bool} {c : Context} {gs : List Glyph} {tokens : Array Token} (h : I tokens gs) :
    Ends I (run lastLine fuel atStart c gs tokens) := by
  induction fuel generalizing atStart c gs tokens with
  | zero => exact ⟨gs, h⟩
  | succ fuel ih =>
    cases atStart with
    | true => exact run_at_start hI h ih
    | false => exact run_inside hI h ih

theorem of_glyphs_keeps {I : Array Token → List Glyph → Prop} (hI : Kept I) {gs : List Glyph}
    (h : I #[] gs) : Ends I (ofGlyphs gs) :=
  run_keeps hI h

/-! ## Tokens -/

/-- A token of some of the bytes between two places. A name needs no more of them than it has. -/
structure Written (lo hi : Nat) (t : Token) : Prop where
  lo_le : lo ≤ t.start
  start_lt : t.start < t.stop
  le_hi : t.stop ≤ hi
  lexeme : Laid t.start t.stop t.lexeme
  name : t.kind = .name → 0 < t.text.utf8ByteSize ∧ t.start + t.text.utf8ByteSize ≤ t.stop

/-- Tokens of which those that stand for characters follow one another between two places. -/
structure TokensLaid (lo hi : Nat) (ts : List Token) : Prop where
  written : ∀ t ∈ ts, t.isLayout = false → Written lo hi t
  ordered : ts.Pairwise fun t u => t.isLayout = false → u.isLayout = false → t.stop ≤ u.start

theorem Lexeme.written {lo hi : Nat} {kind : TokenKind} {lexeme : List Glyph}
    (h : Lexeme kind lexeme) (hlaid : Laid lo hi lexeme) (depth : Nat) :
    Written lo hi (token kind lexeme depth) := by
  obtain ⟨first, more, rfl, hfirst⟩ := h.begins
  have hne : first :: more ≠ [] := List.cons_ne_nil first more
  have hbetween := hlaid.between
  have hstop : (token kind (first :: more) depth).stop = ((first :: more).getLast hne).stop := by
    change ((first :: more).getLastD first).stop = _
    rw [List.getLastD_cons, List.getLast_eq_getLastD]
  have hle := hbetween.head.le_hi
  have hfilled := hlaid.start_lt hfirst
  refine ⟨hlaid.head.lo_le, ?_, ?_, hstop ▸ hbetween, fun hkind => ?_⟩
  · rw [hstop]
    exact Nat.lt_of_lt_of_le hfilled hle
  · rw [hstop]
    exact (hlaid.within _ (List.getLast_mem hne)).le_hi
  · have hlines : ∀ g ∈ first :: more, g.char ≠ '\n' := fun g hg =>
      ne_newline_of_word (h.word (.inl hkind) g hg)
    have hsize := hbetween.size_le (Nat.le_trans (Nat.le_of_lt hfilled) hle) hlines
    rw [hstop]
    change 0 < (String.ofList _).utf8ByteSize ∧ first.start + (String.ofList _).utf8ByteSize ≤ _
    rw [utf8_byte_size_of_list]
    refine ⟨?_, hsize⟩
    rw [Glyph.chars, List.map_cons, size_of_chars_cons]
    exact Nat.lt_of_lt_of_le first.char.utf8Size_pos (Nat.le_add_right ..)

/-- The state of a lexer: what it has read stands before what is left. -/
structure Reading (lo hi : Nat) (tokens : Array Token) (gs : List Glyph) : Prop where
  read : TokensLaid lo hi tokens.toList
  left : Laid lo hi gs
  apart : ∀ t ∈ tokens.toList, t.isLayout = false → ∀ g ∈ gs, t.stop ≤ g.start

namespace Reading

variable {lo hi : Nat} {tokens : Array Token} {gs left : List Glyph}

theorem append_layout (h : Reading lo hi tokens gs) {ts : List Token}
    (hts : ∀ t ∈ ts, t.isLayout ≠ false) : Reading lo hi (tokens ++ ts.toArray) gs := by
  have hall : (tokens ++ ts.toArray).toList = tokens.toList ++ ts := Array.toList_append
  refine ⟨⟨?_, ?_⟩, h.left, ?_⟩ <;> rw [hall]
  · intro t ht hwritten
    rcases List.mem_append.mp ht with ht | ht
    · exact h.read.written t ht hwritten
    · exact absurd hwritten (hts t ht)
  · refine List.pairwise_append.mpr ⟨h.read.ordered, ?_, ?_⟩
    · exact List.pairwise_of_forall_mem_list fun t ht _ _ hwritten => absurd hwritten (hts t ht)
    · exact fun _ _ u hu _ hwritten => absurd hwritten (hts u hu)
  · intro t ht hwritten
    rcases List.mem_append.mp ht with ht | ht
    · exact h.apart t ht hwritten
    · exact absurd hwritten (hts t ht)

theorem push_lexeme {lexeme : List Glyph} (h : Reading lo hi tokens (lexeme ++ left))
    {kind : TokenKind} (hlexeme : Lexeme kind lexeme) (depth : Nat) :
    Reading lo hi (tokens.push (token kind lexeme depth)) left := by
  have hwritten : Written lo hi (token kind lexeme depth) :=
    hlexeme.written (h.left.sublist (List.sublist_append_left ..)) depth
  obtain ⟨first, more, rfl, _⟩ := hlexeme.begins
  obtain ⟨taken, last, heq, _⟩ := hlexeme.ends
  have hlast : last ∈ first :: more := heq ▸ List.mem_append_right taken (List.mem_singleton_self _)
  refine ⟨⟨?_, ?_⟩, h.left.sublist (List.sublist_append_right ..), ?_⟩ <;> rw [Array.toList_push]
  · exact List.forall_mem_append.mpr
      ⟨h.read.written, List.forall_mem_singleton.mpr fun _ => hwritten⟩
  · refine List.pairwise_append.mpr ⟨h.read.ordered, List.pairwise_singleton .., ?_⟩
    intro t ht u hu ht' _
    rw [List.mem_singleton.mp hu]
    exact h.apart t ht ht' first (List.mem_cons_self ..)
  · refine List.forall_mem_append.mpr ⟨fun t ht ht' d hd => ?_,
      List.forall_mem_singleton.mpr fun _ d hd => ?_⟩
    · exact h.apart t ht ht' d (List.mem_append_right _ hd)
    · rw [heq, token_stop]
      exact ((List.pairwise_append.mp h.left.ordered).2.2 last hlast d hd).2

theorem kept (lo hi : Nat) : Kept (Reading lo hi) where
  laid h := ⟨lo, hi, h.left⟩
  suffix h hsuffix := ⟨h.read, h.left.suffix hsuffix, fun t ht hwritten d hd =>
    h.apart t ht hwritten d (hsuffix.subset hd)⟩
  layout h hts := h.append_layout hts
  lexeme depth h hlexeme := h.push_lexeme hlexeme depth

end Reading

/-- The tokens of a run of glyphs follow one another where the glyphs stand. -/
theorem of_glyphs_laid {lo hi : Nat} {gs : List Glyph} (h : Laid lo hi gs) :
    TokensLaid lo hi (ofGlyphs gs).tokens.toList := by
  obtain ⟨_, hread⟩ := of_glyphs_keeps (Reading.kept lo hi) ⟨⟨nofun, .nil⟩, h, nofun⟩
  exact hread.read

/-- A token that is made of some glyphs of a run. -/
def CutFrom (gs : List Glyph) (t : Token) : Prop :=
  ∃ lexeme depth, t = token t.kind lexeme depth ∧ lexeme <:+: gs ∧ Lexeme t.kind lexeme

/-- A run is cut into its tokens so far and what is left of it. -/
def AllCut (gs : List Glyph) (tokens : Array Token) (left : List Glyph) : Prop :=
  left <:+ gs ∧ ∀ t ∈ tokens.toList, t.isLayout = false → CutFrom gs t

theorem of_glyphs_cut {lo hi : Nat} {gs : List Glyph} (h : Laid lo hi gs) :
    ∀ t ∈ (ofGlyphs gs).tokens.toList, t.isLayout = false → CutFrom gs t := by
  have hkept : Kept (AllCut gs) := by
    constructor
    · exact fun hleft => ⟨lo, hi, h.suffix hleft.1⟩
    · exact fun hleft hsuffix => ⟨hsuffix.trans hleft.1, hleft.2⟩
    · intro tokens left ts hleft hts
      refine ⟨hleft.1, fun t ht hwritten => ?_⟩
      rcases List.mem_append.mp (Array.toList_append ▸ ht) with ht | ht
      · exact hleft.2 t ht hwritten
      · exact absurd hwritten (hts t ht)
    · intro tokens lexeme left kind depth hleft hlexeme
      refine ⟨(List.suffix_append lexeme left).trans hleft.1, fun t ht hwritten => ?_⟩
      rcases List.mem_append.mp (Array.toList_push ▸ ht) with ht | ht
      · exact hleft.2 t ht hwritten
      · obtain rfl := List.mem_singleton.mp ht
        exact ⟨lexeme, depth, rfl, (List.infix_append' [] lexeme left).trans hleft.1.isInfix, hlexeme⟩
  obtain ⟨_, _, hcut⟩ := of_glyphs_keeps hkept ⟨List.suffix_refl gs, nofun⟩
  exact hcut

end BacktestAudit.Syntax.Lexer
