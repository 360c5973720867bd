import BacktestAudit.Proofs.Source.Shown
import BacktestAudit.Proofs.Syntax.Placed.Program
import Mathlib.Data.List.Chain

/-!
What a text shows where its tokens are. Each glyph stands for the character of the text at its place,
and so do the glyphs of an expression in a string, but for the brackets around it, which stand for
marks. So an expression begins and ends with characters that end no line.
-/
namespace BacktestAudit.Syntax
open BacktestAudit.Source BacktestAudit.Text
set_option autoImplicit false

/-! ## Characters at places -/

/-- A text is cut at a place in one way only. -/
theorem cut_unique {as bs cs ds : List Char} (h : as ++ bs = cs ++ ds)
    (hsize : sizeOfChars as = sizeOfChars cs) : as = cs ∧ bs = ds := by
  induction as generalizing cs with
  | nil =>
    cases cs with
    | nil => exact ⟨rfl, h⟩
    | cons c cs =>
      have hpos := c.utf8Size_pos
      rw [size_of_chars_cons, sizeOfChars] at hsize
      omega
  | cons a as ih =>
    cases cs with
    | nil =>
      have hpos := a.utf8Size_pos
      rw [size_of_chars_cons, sizeOfChars] at hsize
      omega
    | cons c cs =>
      obtain ⟨rfl, hrest⟩ := List.cons.inj h
      rw [size_of_chars_cons, size_of_chars_cons] at hsize
      obtain ⟨rfl, hbs⟩ := ih hrest (Nat.add_left_cancel hsize)
      exact ⟨rfl, hbs⟩

/-- The characters of a text between two places. -/
def StandsAt (text : String) (start stop : Nat) (cs : List Char) : Prop :=
  ∃ before behind, text.toList = before ++ (cs ++ behind) ∧ sizeOfChars before = start ∧
    start + sizeOfChars cs = stop

namespace StandsAt

variable {text : String} {a b c : Nat} {cs ds : List Char}

theorem size (h : StandsAt text a b cs) : a + sizeOfChars cs = b := by
  obtain ⟨_, _, _, _, hstop⟩ := h
  exact hstop

theorem append (h : StandsAt text a b cs) (h' : StandsAt text b c ds) :
    StandsAt text a c (cs ++ ds) := by
  obtain ⟨before, rest, htext, hstart, hstop⟩ := h
  obtain ⟨before', behind, htext', hstart', hstop'⟩ := h'
  have hcut : (before ++ cs) ++ rest = before' ++ (ds ++ behind) := by
    rw [List.append_assoc, ← htext, htext']
  have hsize : sizeOfChars (before ++ cs) = sizeOfChars before' := by
    rw [size_of_chars_append]
    omega
  obtain ⟨_, rfl⟩ := cut_unique hcut hsize
  refine ⟨before, behind, by rw [htext, List.append_assoc], hstart, ?_⟩
  rw [size_of_chars_append]
  omega

end StandsAt

/-- A character that ends no line begins at a place. -/
def Opens (text : String) (place : Nat) : Prop :=
  ∃ c stop, StandsAt text place stop [c] ∧ isBreak c = false

/-- A character that ends no line ends at a place. -/
def Closes (text : String) (place : Nat) : Prop :=
  ∃ c start, StandsAt text start place [c] ∧ isBreak c = false

/-! ## Glyphs -/

/-- A glyph that stands for the character at its place. A bracket may stand for another. -/
def Glyph.Shown (text : String) (g : Glyph) : Prop :=
  ∃ c, StandsAt text g.start g.stop [c] ∧ isBreak c = false ∧ c.utf8Size = g.char.utf8Size ∧
    (g.char ≠ '(' → g.char ≠ ')' → c = g.char)

theorem Glyph.Shown.stop_eq {text : String} {g : Glyph} (h : g.Shown text) :
    g.stop = g.start + g.char.utf8Size := by
  obtain ⟨c, hc, _, hsize, _⟩ := h
  rw [← hc.size, size_of_chars_cons, hsize]
  rfl

/-- Glyphs without gaps; those that end no line stand for characters of a text. -/
structure Seen (text : String) (gs : List Glyph) : Prop where
  joined : gs.IsChain fun a b => a.stop = b.start
  shown : ∀ g ∈ gs, g.char ≠ '\n' → g.Shown text

namespace Seen

variable {text : String} {g : Glyph} {gs part : List Glyph}

theorem of_part (h : Seen text gs) (hpart : part <:+: gs) : Seen text part where
  joined := List.IsChain.infix h.joined hpart
  shown g hg := h.shown g (hpart.subset hg)

theorem cons (hg : g.char ≠ '\n' → g.Shown text) (hnext : ∀ d ∈ gs.head?, g.stop = d.start)
    (h : Seen text gs) : Seen text (g :: gs) :=
  ⟨List.isChain_cons.mpr ⟨hnext, h.joined⟩, List.forall_mem_cons.mpr ⟨hg, h.shown⟩⟩

theorem one (hg : g.char ≠ '\n' → g.Shown text) : Seen text [g] :=
  .cons hg nofun ⟨.nil, nofun⟩

theorem append {more : List Glyph} (h : Seen text gs) (h' : Seen text more)
    (hnext : ∀ a ∈ gs.getLast?, ∀ b ∈ more.head?, a.stop = b.start) : Seen text (gs ++ more) :=
  ⟨List.isChain_append.mpr ⟨h.joined, h'.joined, hnext⟩,
    List.forall_mem_append.mpr ⟨h.shown, h'.shown⟩⟩

theorem stands_at {first : Glyph} {more : List Glyph} (h : Seen text (first :: more))
    (hplain : ∀ g ∈ first :: more, g.char ≠ '\n' ∧ g.char ≠ '(' ∧ g.char ≠ ')') :
    StandsAt text first.start (more.getLastD first).stop (Glyph.chars (first :: more)) := by
  induction more generalizing first with
  | nil =>
    obtain ⟨hline, hopening, hclosing⟩ := hplain first (List.mem_cons_self ..)
    obtain ⟨c, hc, _, _, heq⟩ := h.shown first (List.mem_cons_self ..) hline
    rw [heq hopening hclosing] at hc
    exact hc
  | cons g more ih =>
    obtain ⟨hline, hopening, hclosing⟩ := hplain first (List.mem_cons_self ..)
    obtain ⟨c, hc, _, _, heq⟩ := h.shown first (List.mem_cons_self ..) hline
    obtain ⟨hnext, hjoined⟩ := List.isChain_cons.mp h.joined
    rw [heq hopening hclosing, hnext g rfl] at hc
    have hrest : Seen text (g :: more) :=
      ⟨hjoined, fun d hd => h.shown d (List.mem_cons_of_mem first hd)⟩
    have hall := ih hrest fun d hd => hplain d (List.mem_cons_of_mem first hd)
    rw [List.getLastD_cons]
    exact hc.append hall

end Seen

/-! ## The glyphs of a text -/

theorem seen_place {text : String} (offset line : Nat) (cs : List Char) :
    ∀ before, text.toList = before ++ cs → sizeOfChars before = offset →
      Seen text (Glyph.place offset line cs) ∧
        ∀ g ∈ (Glyph.place offset line cs).head?, offset = g.start := by
  fun_induction Glyph.place offset line cs with
  | case1 offset line rest ih =>
    intro before htext hsize
    have hbefore : sizeOfChars (before ++ ['\r', '\n']) = offset + 2 := by
      rw [size_of_chars_append, hsize]
      rfl
    obtain ⟨hseen, hhead⟩ := ih (before ++ ['\r', '\n']) (by simpa using htext) hbefore
    exact ⟨.cons (absurd rfl ·) hhead hseen, fun _ hg => Option.some.inj hg ▸ rfl⟩
  | case2 offset line c rest _ hc ih =>
    intro before htext hsize
    have hbefore : sizeOfChars (before ++ [c]) = offset + 1 := by
      rw [size_of_chars_append, hsize]
      rcases hc with rfl | rfl <;> rfl
    obtain ⟨hseen, hhead⟩ := ih (before ++ [c]) (by simpa using htext) hbefore
    exact ⟨.cons (absurd rfl ·) hhead hseen, fun _ hg => Option.some.inj hg ▸ rfl⟩
  | case3 offset line c rest _ hc ih =>
    intro before htext hsize
    have hbefore : sizeOfChars (before ++ [c]) = offset + c.utf8Size := by
      rw [size_of_chars_append, hsize]
      rfl
    obtain ⟨hseen, hhead⟩ := ih (before ++ [c]) (by simpa using htext) hbefore
    have hbreak : isBreak c = false := not_break_iff.mpr (not_or.mp hc)
    have hshown : Glyph.Shown text ⟨c, offset, offset + c.utf8Size, line⟩ :=
      ⟨c, ⟨before, rest, htext, hsize, rfl⟩, hbreak, rfl, fun _ _ => rfl⟩
    exact ⟨.cons (fun _ => hshown) hhead hseen, fun _ hg => Option.some.inj hg ▸ rfl⟩
  | case4 =>
    intro _ _ _
    exact ⟨⟨.nil, List.forall_mem_nil _⟩, fun _ hg => absurd hg (Option.not_mem_none _)⟩

theorem head_terminate {gs : List Glyph} (hne : gs ≠ []) :
    (Glyph.terminate gs).head? = gs.head? := by
  fun_cases Glyph.terminate gs with
  | case1 => exact absurd rfl hne
  | case2 | case3 | case4 | case5 => rfl

theorem seen_terminate {text : String} {gs : List Glyph} (h : Seen text gs) :
    Seen text (Glyph.terminate gs) := by
  fun_induction Glyph.terminate gs with
  | case1 => exact .one (absurd rfl ·)
  | case2 g | case3 g =>
    exact .cons (h.shown g (List.mem_cons_self ..)) (fun _ hd => Option.some.inj hd ▸ rfl)
      (.one (absurd rfl ·))
  | case4 => exact h
  | case5 g rest hrest ih =>
    obtain ⟨hnext, hjoined⟩ := List.isChain_cons.mp h.joined
    have htail := ih ⟨hjoined, fun d hd => h.shown d (List.mem_cons_of_mem g hd)⟩
    refine .cons (h.shown g (List.mem_cons_self ..)) ?_ htail
    rw [head_terminate fun heq => hrest heq]
    exact hnext

theorem seen_of_text (text : String) : Seen text (Glyph.ofText text) :=
  seen_terminate (seen_place 0 1 text.toList [] rfl rfl).1

theorem field_glyphs_cons (first : Glyph) (more : List Glyph) :
    Grammar.fieldGlyphs (first :: more) =
      ⟨'(', first.start - 1, first.start, first.line⟩ :: (first :: more ++
        [⟨')', (more.getLastD first).stop, (more.getLastD first).stop + 1,
          (more.getLastD first).line⟩,
        ⟨'\n', (more.getLastD first).stop + 1, (more.getLastD first).stop + 1,
          (more.getLastD first).line⟩]) := by
  simp only [Grammar.fieldGlyphs, List.headD_cons, List.getLastD_cons]
  rfl

/-- The brackets around an expression in a string stand for the marks there. -/
theorem seen_field_glyphs {text : String} {before behind : Glyph} {field : List Glyph}
    (h : Seen text (before :: (field ++ [behind])))
    (hmarks : StringLiteral.isMark before.char = true ∧ StringLiteral.isMark behind.char = true)
    (hne : field ≠ []) : Seen text (Grammar.fieldGlyphs field) := by
  obtain ⟨first, more, rfl⟩ := List.exists_cons_of_ne_nil hne
  have hfield : Seen text (first :: more) := h.of_part ⟨[before], [behind], rfl⟩
  have hbefore := h.shown before (List.mem_cons_self ..) (StringLiteral.ne_newline_of_mark hmarks.1)
  have hbehind := h.shown behind (by simp) (StringLiteral.ne_newline_of_mark hmarks.2)
  have hstart : before.stop = first.start := (List.isChain_cons.mp h.joined).1 first rfl
  rw [field_glyphs_cons]
  have hlast : (first :: more).getLast? = some (more.getLastD first) := by
    rw [List.getLast?_cons, List.getLastD_eq_getLast?]
  generalize more.getLastD first = last at hlast
  have hstop : last.stop = behind.start :=
    (List.isChain_append.mp (List.isChain_cons.mp h.joined).2).2.2 last hlast behind rfl
  have hopening : Glyph.Shown text ⟨'(', first.start - 1, first.start, first.line⟩ := by
    have hsize := hbefore.stop_eq
    obtain ⟨c, hc, hbreak, hcsize, _⟩ := hbefore
    rw [StringLiteral.size_of_mark hmarks.1] at hsize hcsize
    have hplace : before.start = first.start - 1 := by omega
    exact ⟨c, hplace ▸ hstart ▸ hc, hbreak, hcsize, (absurd rfl ·)⟩
  have hclosing : Glyph.Shown text ⟨')', last.stop, last.stop + 1, last.line⟩ := by
    have hsize := hbehind.stop_eq
    obtain ⟨c, hc, hbreak, hcsize, _⟩ := hbehind
    rw [StringLiteral.size_of_mark hmarks.2] at hsize hcsize
    rw [hsize, ← hstop] at hc
    exact ⟨c, hc, hbreak, hcsize, fun _ => (absurd rfl ·)⟩
  have hending : Seen text [⟨')', last.stop, last.stop + 1, last.line⟩,
      ⟨'\n', last.stop + 1, last.stop + 1, last.line⟩] :=
    .cons (fun _ => hclosing) (fun _ hd => Option.some.inj hd ▸ rfl) (.one (absurd rfl ·))
  refine .cons (fun _ => hopening) (fun _ hd => Option.some.inj hd ▸ rfl)
    (hfield.append hending fun a ha b hb => ?_)
  obtain rfl := Option.some.inj (hlast.symm.trans ha)
  obtain rfl := Option.some.inj hb
  rfl

/-! ## Tokens -/

/-- A token of glyphs that a text shows. -/
def Token.Seen (text : String) (t : Token) : Prop :=
  ∃ lexeme depth, t = Lexer.token t.kind lexeme depth ∧ Lexer.Lexeme t.kind lexeme ∧
    Syntax.Seen text lexeme

theorem Setting.Reads.seen {text : String} {s : Setting} {t : Token} (h : s.Reads t) :
    ∀ {gs : List Glyph} {lo hi : Nat}, s.stream = Lexer.ofGlyphs gs → Laid lo hi gs →
      Seen text gs → t.Seen text := by
  have hcut : ∀ {s : Setting} {i : Nat} {u : Token} {gs : List Glyph} {lo hi : Nat},
      s.stream = Lexer.ofGlyphs gs → Laid lo hi gs → WrittenAt s i u → Lexer.CutFrom gs u := by
    intro s i u gs lo hi hstream hlaid hu
    refine Lexer.of_glyphs_cut hlaid u (Array.mem_toList_iff.mpr ?_) hu.2
    exact Array.mem_of_getElem? (hstream ▸ hu.1)
  induction h with
  | own ht =>
    intro gs lo hi hstream hlaid hseen
    obtain ⟨lexeme, depth, heq, hpart, hlexeme⟩ := hcut hstream hlaid ht
    exact ⟨lexeme, depth, heq, hlexeme, hseen.of_part hpart⟩
  | field hu hwindow hmarks hne _ ih =>
    intro gs lo hi hstream hlaid hseen
    obtain ⟨lexeme, depth, heq, hpart, _⟩ := hcut hstream hlaid hu
    rw [heq] at hwindow
    have hall := hwindow.trans hpart
    have hwindowLaid := hlaid.sublist hall.sublist
    exact ih (Grammar.field_stream_eq _)
      (Grammar.field_glyphs_laid hwindowLaid (StringLiteral.ne_newline_of_mark hmarks.2) hne)
      (seen_field_glyphs (hseen.of_part hall) hmarks hne)

namespace Token.Seen

variable {text : String} {t : Token}

theorem opens (h : t.Seen text) : Opens text t.start := by
  obtain ⟨lexeme, depth, heq, hlexeme, hseen⟩ := h
  obtain ⟨first, more, rfl, hline⟩ := hlexeme.begins
  obtain ⟨c, hc, hbreak, _⟩ := hseen.shown first (List.mem_cons_self ..) hline
  rw [heq]
  exact ⟨c, _, hc, hbreak⟩

theorem closes (h : t.Seen text) : Closes text t.stop := by
  obtain ⟨lexeme, depth, heq, hlexeme, hseen⟩ := h
  obtain ⟨taken, last, rfl, hline⟩ := hlexeme.ends
  obtain ⟨c, hc, hbreak, _⟩ := hseen.shown last (by simp) hline
  rw [heq, Lexer.token_stop]
  exact ⟨c, _, hc, hbreak⟩

theorem stands_at (h : t.Seen text)
    (hplain : ∀ c ∈ t.text.toList, c ≠ '\n' ∧ c ≠ '(' ∧ c ≠ ')') :
    StandsAt text t.start t.stop t.text.toList := by
  obtain ⟨lexeme, depth, heq, hlexeme, hseen⟩ := h
  obtain ⟨first, more, rfl, _⟩ := hlexeme.begins
  have hchars : t.text.toList = Glyph.chars (first :: more) := by
    rw [heq]
    exact String.toList_ofList
  have hstands := hseen.stands_at fun g hg => hplain g.char (hchars ▸ List.mem_map_of_mem hg)
  have hstop : t.stop = (more.getLastD first).stop := by
    rw [heq]
    change ((first :: more).getLastD first).stop = _
    rw [List.getLastD_cons]
  rw [hchars, hstop, heq]
  exact hstands

theorem word (h : t.Seen text) (hname : t.kind = .name) :
    StandsAt text t.start t.stop t.text.toList ∧
      ∀ c ∈ t.text.toList, Lexer.isWordChar c = true := by
  have hword : ∀ c ∈ t.text.toList, Lexer.isWordChar c = true := by
    obtain ⟨lexeme, depth, heq, hlexeme, _⟩ := h
    intro c hc
    rw [heq] at hc
    obtain ⟨g, hg, rfl⟩ := List.mem_map.mp (String.toList_ofList ▸ hc)
    exact hlexeme.word (.inl hname) g hg
  refine ⟨h.stands_at fun c hc => ?_, hword⟩
  have hchar := hword c hc
  refine ⟨?_, ?_, ?_⟩ <;> rintro rfl <;> nomatch hchar

theorem bracket (h : t.Seen text) (ht : t.text = ")") : Opens text (t.stop - 1) := by
  obtain ⟨lexeme, depth, heq, hlexeme, hseen⟩ := h
  obtain ⟨first, more, rfl, hline⟩ := hlexeme.begins
  have hchars : Glyph.chars (first :: more) = [')'] := by
    rw [heq] at ht
    exact String.ofList_injective ht
  obtain ⟨hchar, hmore⟩ : first.char = ')' ∧ Glyph.chars more = [] := List.cons.inj hchars
  obtain rfl := List.map_eq_nil_iff.mp hmore
  obtain ⟨c, hc, hbreak, hsize, _⟩ := hseen.shown first (List.mem_cons_self ..) hline
  have hstop : first.start = first.stop - 1 := by
    have hadd := hc.size
    rw [size_of_chars_cons, hsize, hchar] at hadd
    change first.start + 1 = first.stop at hadd
    omega
  rw [heq]
  exact ⟨c, first.stop, hstop ▸ hc, hbreak⟩

end Token.Seen

/-! ## Expressions -/

namespace Expr

/-- An expression that begins and ends with tokens that a text shows, and so do those inside. -/
def Shown (text : String) (e : Expr) : Prop :=
  ∃ s : Setting, e.Spelled s ∧ ∀ t, s.Reads t → t.Seen text

namespace Shown

variable {text : String} {e c : Expr} {x : Extent}

theorem opens (h : e.Shown text) : Opens text e.extent.start := by
  obtain ⟨s, hspelled, hs⟩ := h
  cases hspelled with
  | intro first _ _ _ =>
    obtain ⟨t, ht, hstart⟩ := first
    exact hstart ▸ (hs t ht).opens

theorem closes (h : e.Shown text) : Closes text e.extent.stop := by
  obtain ⟨s, hspelled, hs⟩ := h
  cases hspelled with
  | intro _ last _ _ =>
    obtain ⟨t, ht, hstop⟩ := last
    exact hstop ▸ (hs t ht).closes

theorem child (h : e.Shown text) (hc : c ∈ e.children) : c.Shown text := by
  obtain ⟨s, hspelled, hs⟩ := h
  cases hspelled with
  | intro _ _ _ children => exact ⟨s, children c hc, hs⟩

theorem fitted (h : e.Shown text) : ∃ s : Setting, e.FittedIn s ∧ ∀ t, s.Reads t → t.Seen text := by
  obtain ⟨s, hspelled, hs⟩ := h
  cases hspelled with
  | intro _ _ fitted _ => exact ⟨s, fitted, hs⟩

theorem name {v : Expr} {attr : String} (h : (member x v attr).Shown text) :
    StandsAt text (x.stop - attr.utf8ByteSize) x.stop attr.toList ∧
      ∀ c ∈ attr.toList, Lexer.isWordChar c = true := by
  obtain ⟨s, ⟨_, t, ht, hkind, rfl, hstop⟩, hs⟩ := h.fitted
  obtain ⟨hstands, hword⟩ := (hs t ht).word hkind
  have hsize : t.text.utf8ByteSize = sizeOfChars t.text.toList := by
    rw [← utf8_byte_size_of_list, String.ofList_toList]
  have hstart : x.stop - t.text.utf8ByteSize = t.start := by
    have hadd := hstands.size
    omega
  rw [hstart, hstop]
  exact ⟨hstands, hword⟩

theorem truth_value {b : Bool} (h : (constant x (.bool b)).Shown text) :
    ∃ cs, StandsAt text x.start x.stop cs ∧ ∀ c ∈ cs, isBreak c = false := by
  obtain ⟨s, ⟨t, ht, hword, hstart, hstop⟩, hs⟩ := h.fitted
  have hall : t.text.toList.all (fun c => !isBreak c && c ≠ '(' && c ≠ ')') = true := by
    rcases hword with hword | hword <;> rw [hword] <;> decide
  have hplain : ∀ c ∈ t.text.toList, isBreak c = false ∧ c ≠ '(' ∧ c ≠ ')' := by
    intro c hc
    have hc' := List.all_eq_true.mp hall c hc
    rwa [Bool.and_eq_true, Bool.and_eq_true, Bool.not_eq_true', decide_eq_true_eq,
      decide_eq_true_eq, and_assoc] at hc'
  rw [hstart, hstop]
  refine ⟨_, (hs t ht).stands_at fun c hc => ?_, fun c hc => (hplain c hc).1⟩
  obtain ⟨hbreak, hopening, hclosing⟩ := hplain c hc
  refine ⟨?_, hopening, hclosing⟩
  rintro rfl
  nomatch hbreak

theorem bracket {f : Expr} {as : List Expr} (h : (call x f as).Shown text)
    (hkeyword : ∃ a ∈ as, a.isKeyword = true) : Opens text (x.stop - 1) := by
  obtain ⟨s, ⟨_, hbracket⟩, hs⟩ := h.fitted
  obtain ⟨t, ht, htext, hstop⟩ := hbracket hkeyword
  exact hstop ▸ (hs t ht).bracket htext

end Shown
end Expr

theorem SourceUnit.expressions_shown {text name : String} {u : SourceUnit}
    (h : parse text name = .ok u) : ∀ e ∈ Stmt.expressionsOfAll u.statements, e.Shown text :=
  fun e he => ⟨_, expressions_spelled h e he, fun _ ht =>
    ht.seen rfl (laid_of_text text) (seen_of_text text)⟩

end BacktestAudit.Syntax
