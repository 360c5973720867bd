import BacktestAudit.Syntax.Glyph
import BacktestAudit.Text.Bytes

/-!
The places of glyphs. The glyphs of a text stand one behind the other in its bytes, and so do those of
any part of it.
-/
namespace BacktestAudit.Syntax
open BacktestAudit.Text
set_option autoImplicit false

/-- A glyph that takes up bytes between two places: all that its character needs, unless it ends a
line. -/
structure Glyph.Within (lo hi : Nat) (g : Glyph) : Prop where
  lo_le : lo ≤ g.start
  start_le : g.start ≤ g.stop
  le_hi : g.stop ≤ hi
  size_le : g.char ≠ '\n' → g.start + g.char.utf8Size ≤ g.stop

/-- A run of glyphs between two places, each behind the one before it. All but the last take up
bytes. -/
structure Laid (lo hi : Nat) (gs : List Glyph) : Prop where
  within : ∀ g ∈ gs, g.Within lo hi
  ordered : gs.Pairwise fun a b => a.start < a.stop ∧ a.stop ≤ b.start

namespace Laid

theorem nil (lo hi : Nat) : Laid lo hi [] := ⟨nofun, .nil⟩

variable {lo hi : Nat} {g : Glyph} {gs rest : List Glyph}

theorem tail (h : Laid lo hi (g :: gs)) : Laid lo hi gs :=
  ⟨fun d hd => h.within d (List.mem_cons_of_mem g hd), (List.pairwise_cons.mp h.ordered).2⟩

theorem head (h : Laid lo hi (g :: gs)) : g.Within lo hi := h.within g (List.mem_cons_self ..)

theorem sublist (h : Laid lo hi gs) (hsub : rest.Sublist gs) : Laid lo hi rest :=
  ⟨fun d hd => h.within d (hsub.subset hd), h.ordered.sublist hsub⟩

theorem suffix (h : Laid lo hi gs) (hsuffix : rest <:+ gs) : Laid lo hi rest :=
  h.sublist hsuffix.sublist

theorem start_lt (h : Laid lo hi (g :: gs)) (hg : g.char ≠ '\n') : g.start < g.stop := by
  have hsize := h.head.size_le hg
  have hpos := g.char.utf8Size_pos
  omega

theorem tail_start (h : Laid lo hi (g :: gs)) : Laid g.stop hi gs := by
  refine ⟨fun d hd => ?_, h.tail.ordered⟩
  have hd' := h.tail.within d hd
  exact ⟨((List.pairwise_cons.mp h.ordered).1 d hd).2, hd'.start_le, hd'.le_hi, hd'.size_le⟩

theorem cons (hg : g.Within lo hi) (hlt : g.start < g.stop) (h : Laid g.stop hi gs) :
    Laid lo hi (g :: gs) := by
  have hlo := hg.lo_le
  refine ⟨List.forall_mem_cons.mpr ⟨hg, fun d hd => ?_⟩,
    List.pairwise_cons.mpr ⟨fun d hd => ⟨hlt, ?_⟩, h.ordered⟩⟩
  · have hd' := h.within d hd
    have hle := hd'.lo_le
    exact ⟨by omega, hd'.start_le, hd'.le_hi, hd'.size_le⟩
  · exact (h.within d hd).lo_le

theorem append {mid : Nat} {more : List Glyph} (h : Laid lo hi gs) (hmore : Laid mid hi more)
    (hfilled : ∀ g ∈ gs, g.start < g.stop ∧ g.stop ≤ mid) (hlo : lo ≤ mid) :
    Laid lo hi (gs ++ more) := by
  refine ⟨List.forall_mem_append.mpr ⟨h.within, fun d hd => ?_⟩,
    List.pairwise_append.mpr ⟨h.ordered, hmore.ordered, fun g hg d hd => ?_⟩⟩
  · have hd' := hmore.within d hd
    exact ⟨Nat.le_trans hlo hd'.lo_le, hd'.start_le, hd'.le_hi, hd'.size_le⟩
  · have hg' := hfilled g hg
    exact ⟨hg'.1, Nat.le_trans hg'.2 (hmore.within d hd).lo_le⟩

theorem le_last (h : Laid lo hi gs) (hne : gs ≠ []) : ∀ g ∈ gs, g.stop ≤ (gs.getLast hne).stop := by
  induction gs with
  | nil => nofun
  | cons g gs ih =>
    cases gs with
    | nil => exact List.forall_mem_singleton.mpr (Nat.le_refl _)
    | cons b bs =>
      have htail := ih h.tail (List.cons_ne_nil b bs)
      have hnext := ((List.pairwise_cons.mp h.ordered).1 b (List.mem_cons_self ..)).2
      have hb := h.tail.head.start_le
      have hlast := htail b (List.mem_cons_self ..)
      rw [List.getLast_cons (List.cons_ne_nil b bs)]
      exact List.forall_mem_cons.mpr ⟨by omega, htail⟩

theorem between (h : Laid lo hi (g :: gs)) :
    Laid g.start ((g :: gs).getLast (List.cons_ne_nil g gs)).stop (g :: gs) := by
  refine ⟨fun d hd => ?_, h.ordered⟩
  have hd' := h.within d hd
  refine ⟨?_, hd'.start_le, h.le_last (List.cons_ne_nil g gs) d hd, hd'.size_le⟩
  rcases List.mem_cons.mp hd with rfl | hd
  · exact Nat.le_refl _
  · have hnext := (List.pairwise_cons.mp h.ordered).1 d hd
    omega

/-- A run in brackets of its own, with the end of a line behind them. -/
theorem in_brackets {a b m n : Nat} (h : Laid lo hi gs)
    (hbetween : ∀ g ∈ gs, a ≤ g.start ∧ g.start < g.stop ∧ g.stop ≤ b) (hlo : lo < a) (hab : a ≤ b)
    (hhi : b < hi) :
    Laid lo hi ([⟨'(', a - 1, a, m⟩] ++ gs ++ [⟨')', b, b + 1, n⟩, ⟨'\n', b + 1, b + 1, n⟩]) := by
  have hopening : Laid lo hi [⟨'(', a - 1, a, m⟩] := by
    refine ⟨List.forall_mem_singleton.mpr ⟨?_, ?_, ?_, fun _ => ?_⟩, List.pairwise_singleton ..⟩
    · change lo ≤ a - 1
      omega
    · exact Nat.sub_le a 1
    · exact Nat.le_of_lt (Nat.lt_of_le_of_lt hab hhi)
    · change a - 1 + 1 ≤ a
      omega
  have hending : Laid (b + 1) hi [⟨'\n', b + 1, b + 1, n⟩] :=
    ⟨List.forall_mem_singleton.mpr ⟨Nat.le_refl _, Nat.le_refl _, hhi, (absurd rfl ·)⟩,
      List.pairwise_singleton ..⟩
  have hclosing : Laid b hi [⟨')', b, b + 1, n⟩, ⟨'\n', b + 1, b + 1, n⟩] :=
    .cons ⟨Nat.le_refl _, Nat.le_succ _, hhi, fun _ => Nat.le_refl _⟩ (Nat.lt_succ_self _) hending
  have hstart : ∀ g ∈ [Glyph.mk '(' (a - 1) a m], g.start < g.stop ∧ g.stop ≤ a := by
    refine List.forall_mem_singleton.mpr ⟨?_, Nat.le_refl _⟩
    change a - 1 < a
    omega
  have hinner : Laid a hi gs := by
    refine ⟨fun g hg => ?_, h.ordered⟩
    have hg' := h.within g hg
    exact ⟨(hbetween g hg).1, hg'.start_le, hg'.le_hi, hg'.size_le⟩
  refine (hopening.append hinner hstart (Nat.le_of_lt hlo)).append hclosing ?_ (by omega)
  refine List.forall_mem_append.mpr ⟨fun g hg => ?_, fun g hg => (hbetween g hg).2⟩
  exact ⟨(hstart g hg).1, Nat.le_trans (hstart g hg).2 hab⟩

end Laid

/-! ## The glyphs of a text -/

def sizeOfChars : List Char → Nat
  | [] => 0
  | c :: cs => c.utf8Size + sizeOfChars cs

theorem size_of_chars_cons (c : Char) (cs : List Char) :
    sizeOfChars (c :: cs) = c.utf8Size + sizeOfChars cs := rfl

theorem utf8_byte_size_of_list (cs : List Char) :
    (String.ofList cs).utf8ByteSize = sizeOfChars cs := by
  induction cs with
  | nil => rfl
  | cons c cs ih =>
    rw [String.ofList_cons, String.utf8ByteSize_append, String.utf8ByteSize_singleton, ih,
      size_of_chars_cons]

theorem encode_length (s : String) : (encode s).length = sizeOfChars s.toList := by
  rw [encode, to_list_eq, ← utf8_byte_size_of_list, String.ofList_toList]
  rfl

theorem Laid.size_le {lo hi : Nat} {gs : List Glyph} (h : Laid lo hi gs) (hle : lo ≤ hi)
    (hline : ∀ g ∈ gs, g.char ≠ '\n') : lo + sizeOfChars (Glyph.chars gs) ≤ hi := by
  induction gs generalizing lo with
  | nil => exact hle
  | cons g gs ih =>
    have hlo := h.head.lo_le
    have hsize := h.head.size_le (hline g (List.mem_cons_self ..))
    have hrest := ih h.tail_start h.head.le_hi fun d hd => hline d (List.mem_cons_of_mem g hd)
    rw [Glyph.chars, List.map_cons, size_of_chars_cons]
    rw [Glyph.chars] at hrest
    omega

theorem laid_in_front {c : Char} {start stop line hi : Nat} {gs : List Glyph} (hlt : start < stop)
    (hsize : c ≠ '\n' → start + c.utf8Size ≤ stop) (hle : stop ≤ hi)
    (hrest : Laid stop hi gs ∧ ∀ g ∈ gs, g.start < g.stop) :
    Laid start hi (⟨c, start, stop, line⟩ :: gs) ∧
      ∀ g ∈ Glyph.mk c start stop line :: gs, g.start < g.stop := by
  have hg : Glyph.Within start hi ⟨c, start, stop, line⟩ :=
    ⟨Nat.le_refl _, Nat.le_of_lt hlt, hle, hsize⟩
  exact ⟨.cons hg hlt hrest.1, List.forall_mem_cons.mpr ⟨hlt, hrest.2⟩⟩

theorem laid_place (offset line : Nat) (cs : List Char) :
    Laid offset (offset + sizeOfChars cs) (Glyph.place offset line cs) ∧
      ∀ g ∈ Glyph.place offset line cs, g.start < g.stop := by
  fun_induction Glyph.place offset line cs with
  | case1 offset line rest ih =>
    have hsize : offset + sizeOfChars ('\r' :: '\n' :: rest) = offset + 2 + sizeOfChars rest := by
      rw [size_of_chars_cons, size_of_chars_cons, ← Nat.add_assoc, ← Nat.add_assoc]
      rfl
    rw [hsize]
    exact laid_in_front (by omega) (absurd rfl ·) (by omega) ih
  | case2 offset line c rest _ hc ih =>
    have hone : c.utf8Size = 1 := by
      rcases hc with rfl | rfl <;> rfl
    rw [size_of_chars_cons, hone, ← Nat.add_assoc]
    exact laid_in_front (by omega) (absurd rfl ·) (by omega) ih
  | case3 offset line c rest _ hc ih =>
    have hpos := c.utf8Size_pos
    rw [size_of_chars_cons, ← Nat.add_assoc]
    exact laid_in_front (by omega) (fun _ => Nat.le_refl _) (by omega) ih
  | case4 => exact ⟨.nil _ _, nofun⟩

theorem laid_terminate {lo hi : Nat} {gs : List Glyph} (hgs : gs ≠ [])
    (h : Laid lo hi gs) (hfilled : ∀ g ∈ gs, g.start < g.stop) : Laid lo hi (Glyph.terminate gs) := by
  fun_induction Glyph.terminate gs generalizing lo with
  | case1 => exact absurd rfl hgs
  | case2 g hg =>
    have hlt := hfilled g (List.mem_cons_self ..)
    have hle := h.head.le_hi
    have hend : Laid g.stop hi [⟨'\n', g.stop, g.stop, g.line⟩] :=
      ⟨List.forall_mem_singleton.mpr ⟨Nat.le_refl _, Nat.le_refl _, hle, (absurd rfl ·)⟩,
        List.pairwise_singleton ..⟩
    exact .cons h.head hlt hend
  | case3 g _ _ =>
    have hlt := hfilled g (List.mem_cons_self ..)
    have hle := h.head.le_hi
    have hend : Laid g.stop hi [⟨'\n', g.stop, g.stop, g.line + 1⟩] :=
      ⟨List.forall_mem_singleton.mpr ⟨Nat.le_refl _, Nat.le_refl _, hle, (absurd rfl ·)⟩,
        List.pairwise_singleton ..⟩
    exact .cons h.head hlt hend
  | case4 => exact h
  | case5 g rest hrest ih =>
    have hne : rest ≠ [] := fun heq => hrest heq
    have htail := ih hne h.tail_start fun d hd => hfilled d (List.mem_cons_of_mem g hd)
    exact .cons h.head (hfilled g (List.mem_cons_self ..)) htail

theorem laid_of_text (text : String) : Laid 0 (encode text).length (Glyph.ofText text) := by
  obtain ⟨hlaid, hfilled⟩ := laid_place 0 1 text.toList
  rw [Nat.zero_add, ← encode_length] at hlaid
  unfold Glyph.ofText
  cases hgs : Glyph.place 0 1 text.toList with
  | nil =>
    exact ⟨List.forall_mem_singleton.mpr
        ⟨Nat.le_refl _, Nat.le_refl _, Nat.zero_le _, (absurd rfl ·)⟩, List.pairwise_singleton ..⟩
  | cons g gs =>
    rw [hgs] at hlaid hfilled
    exact laid_terminate (List.cons_ne_nil g gs) hlaid hfilled

end BacktestAudit.Syntax
