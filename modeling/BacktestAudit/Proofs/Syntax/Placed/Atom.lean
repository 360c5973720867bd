import BacktestAudit.Proofs.Syntax.Fields
import BacktestAudit.Proofs.Syntax.Placed.Display
import BacktestAudit.Syntax.Grammar.Atom

/-!
The places of atoms. An expression of a formatted string is read from a stream of its own, whose
glyphs stand where the string does.
-/
namespace BacktestAudit.Syntax
open BacktestAudit.Source BacktestAudit.Syntax.Parser
set_option autoImplicit false

theorem TokenStream.parse_from {α : Type} {stream : TokenStream} {m : Parser α} {a : α}
    {R : Nat → α → Prop} (hm : From ⟨stream, false⟩ 0 m R) (h : stream.parse m = .ok a) :
    ∃ j, R j a := by
  unfold TokenStream.parse at h
  have hrun := hm ⟨0, 0, {}⟩ rfl (remembers_empty _)
  simp only at h
  cases hfirst : m ⟨stream, false⟩ ⟨0, 0, {}⟩ with
  | matched b q =>
    rw [hfirst] at h hrun
    exact ⟨q.pos, Except.ok.inj h ▸ hrun.2⟩
  | stopped e =>
    rw [hfirst] at h
    cases h
  | refused q =>
    rw [hfirst] at h
    simp only at h
    split at h
    · cases h
    · split at h
      · cases h
      · split at h <;> cases h
    · split at h
      · cases h
      · split at h <;> cases h

namespace Grammar

variable {self : Rules} {s : Setting} {i : Nat}

/-! ## Strings -/

/-- The glyphs that an expression of a formatted string is read from, in brackets of their own. -/
def fieldGlyphs (field : List Glyph) : List Glyph :=
  let start := field.headD ⟨' ', 0, 0, 1⟩
  let stop := field.getLastD start
  [⟨'(', start.start - 1, start.start, start.line⟩] ++ field ++
    [⟨')', stop.stop, stop.stop + 1, stop.line⟩, ⟨'\n', stop.stop + 1, stop.stop + 1, stop.line⟩]

theorem field_stream_eq (field : List Glyph) :
    fieldStream field = Lexer.ofGlyphs (fieldGlyphs field) := rfl

theorem field_glyphs_laid {lo hi : Nat} {before behind : Glyph} {field : List Glyph}
    (h : Laid lo hi (before :: (field ++ [behind]))) (hline : behind.char ≠ '\n') (hne : field ≠ []) :
    Laid lo hi (fieldGlyphs field) := by
  have hinner : Laid lo hi field := h.tail.sublist (List.sublist_append_left ..)
  have hcross := (List.pairwise_append.mp h.tail.ordered).2.2
  obtain ⟨g, more, rfl⟩ := List.exists_cons_of_ne_nil hne
  have hlast : (g :: more).getLastD g = (g :: more).getLast hne := by
    rw [List.getLastD_cons, List.getLast_eq_getLastD]
  have hend := hcross _ (List.getLast_mem hne) behind (List.mem_cons_self ..)
  refine hinner.in_brackets (fun d hd => ⟨?_, ?_, ?_⟩) ?_ ?_ ?_
  · exact (hinner.between.within d hd).lo_le
  · exact (hcross d hd behind (List.mem_cons_self ..)).1
  · exact hlast ▸ hinner.le_last hne d hd
  · have hbefore := (List.pairwise_cons.mp h.ordered).1 g (by simp)
    have hlo := h.head.lo_le
    change lo < g.start
    omega
  · have hle := hinner.le_last hne g (List.mem_cons_self ..)
    exact hlast ▸ Nat.le_trans hinner.head.start_le hle
  · have hbehind := h.tail.within behind (by simp)
    have hsize := hbehind.size_le hline
    have hpos := behind.char.utf8Size_pos
    have hle := hbehind.le_hi
    rw [List.headD_cons, hlast]
    omega

/-- An expression that stands between two places. -/
def PlacedIn (lo hi : Nat) (e : Expr) : Prop :=
  e.Placed ∧ lo ≤ e.extent.start ∧ e.extent.stop ≤ hi

/-- An expression that is read from a part of a run between two marks. -/
def SpelledIn (gs : List Glyph) (e : Expr) : Prop :=
  ∃ before behind field, before :: (field ++ [behind]) <:+: gs ∧
    (StringLiteral.isMark before.char = true ∧ StringLiteral.isMark behind.char = true) ∧
    field ≠ [] ∧ e.Spelled ⟨fieldStream field, false⟩

/-- Expressions of a run between two places, one apart from another. -/
def AllPlacedIn (lo hi : Nat) (gs : List Glyph) (es : List Expr) : Prop :=
  (∀ e ∈ es, PlacedIn lo hi e ∧ SpelledIn gs e) ∧ es.Pairwise Expr.Apart

theorem SpelledIn.widen {gs gs' : List Glyph} {e : Expr} (h : SpelledIn gs e) (hgs : gs <:+: gs') :
    SpelledIn gs' e := by
  obtain ⟨before, behind, field, hwindow, hspelled⟩ := h
  exact ⟨before, behind, field, hwindow.trans hgs, hspelled⟩

/-- An expression that stands where the glyphs do that it was read from. -/
def ReadFrom (field : List Glyph) (e : Expr) : Prop :=
  field ≠ [] ∧ ∀ before behind : Glyph, Laid before.start behind.stop (before :: (field ++ [behind])) →
    behind.char ≠ '\n' →
    PlacedIn before.start behind.stop e ∧ e.Spelled ⟨fieldStream field, false⟩

theorem field_expression_from (hself : self.Sound) (field : List Glyph) :
    From s i (fieldExpression self field) fun j e => j = i ∧ ReadFrom field e := by
  unfold fieldExpression
  split
  · exact .raiseFurthest
  · next hblank =>
    have hne : field ≠ [] := by
      rintro rfl
      exact hblank rfl
    split
    · next v hv =>
      refine .pure ⟨rfl, hne, fun before behind h hline => ?_⟩
      have hlaid := Lexer.of_glyphs_laid (field_glyphs_laid h hline hne)
      have hs : Setting.Sound ⟨fieldStream field, false⟩ := ⟨rfl, _, _, hlaid⟩
      obtain ⟨j, htook⟩ := TokenStream.parse_from (star_expressions_takes hself hs 0) hv
      have hstands := htook.stands v (List.mem_singleton.mpr rfl)
      exact ⟨⟨hstands.placed, hstands.within hlaid⟩, hstands.spelled⟩
    · exact fun _ _ _ => trivial

theorem fields_placed {lo hi : Nat} {gs left : List Glyph} {fields : List (List Glyph)}
    {es : List Expr} (h : Laid lo hi gs) (hfields : StringLiteral.Enclosed left gs fields)
    (hes : List.Forall₂ ReadFrom fields es) : AllPlacedIn lo hi gs es := by
  -- Along the fields: what stands behind a field begins where the glyph behind it ends.
  induction hfields generalizing lo es with
  | nil =>
    cases hes
    exact ⟨nofun, .nil⟩
  | @cons before behind gs field rest fields hwindow hmarks _ ih =>
    cases hes with
    | @cons _ e _ es he hes =>
      have hall : Laid lo hi (before :: (field ++ behind :: rest)) := h.suffix hwindow
      have hbehind : Laid lo hi (behind :: rest) := hall.tail.suffix (List.suffix_append ..)
      have hpart : (before :: (field ++ [behind])).Sublist (before :: (field ++ behind :: rest)) :=
        (List.Sublist.append_left (List.singleton_sublist.mpr (List.mem_cons_self ..)) field).cons_cons
          before
      have hwithin : Laid before.start behind.stop (before :: (field ++ [behind])) := by
        simpa using (hall.sublist hpart).between
      have hline := StringLiteral.ne_newline_of_mark hmarks.2
      obtain ⟨⟨hplaced, hstart, hstop⟩, hspelled⟩ := he.2 before behind hwithin hline
      obtain ⟨hmore, hapart⟩ := ih hbehind.tail_start hes
      have hsplit : before :: (field ++ behind :: rest) = before :: (field ++ [behind]) ++ rest := by
        simp
      have hfield : before :: (field ++ [behind]) <:+: gs :=
        (hsplit ▸ (List.prefix_append _ rest).isInfix).trans hwindow.isInfix
      have hrest : rest <:+: gs := (hsplit ▸ (List.suffix_append _ rest).isInfix).trans hwindow.isInfix
      have hlo := hall.head.lo_le
      have hle := hbehind.head.start_le
      have hhi := hbehind.head.le_hi
      have hlo' := hbehind.head.lo_le
      refine ⟨List.forall_mem_cons.mpr ⟨⟨⟨hplaced, by omega, by omega⟩, before, behind, field, hfield,
        hmarks, he.1, hspelled⟩, fun d hd => ?_⟩, List.pairwise_cons.mpr ⟨fun d hd => ?_, hapart⟩⟩
      · obtain ⟨⟨hd, hd', hd''⟩, hspelled⟩ := hmore d hd
        exact ⟨⟨hd, by omega, hd''⟩, hspelled.widen hrest⟩
      · exact .inl (Nat.le_trans hstop (hmore d hd).1.2.1)

theorem string_fields_from (hself : self.Sound) {t : Token} (ht : Laid t.start t.stop t.lexeme) :
    From s i (stringFields self t) fun j es =>
      j = i ∧ AllPlacedIn t.start t.stop t.lexeme es := by
  have hinfix := StringLiteral.body_infix t.lexeme
  have hbody : Laid t.start t.stop (StringLiteral.ofLexeme t.lexeme).body :=
    ht.sublist hinfix.sublist
  unfold stringFields
  simp only
  split
  · exact .raiseAt
  · split
    · refine (From.mapM fun field _ => field_expression_from hself field).bind fun j es h => ?_
      obtain ⟨rfl, hes⟩ := h
      split
      · next hwell =>
        obtain ⟨hplaced, hapart⟩ :=
          fields_placed hbody (StringLiteral.read_fields_enclosed _ _ _ _ hwell) hes
        exact .pure ⟨rfl, fun e he => ⟨(hplaced e he).1, (hplaced e he).2.widen hinfix⟩, hapart⟩
      · exact .raiseFurthest
    · split
      · exact .raiseFurthest
      · exact .pure ⟨rfl, nofun, .nil⟩

/-- Tokens at places of a range, one behind the other. -/
def StandInOrder (s : Setting) (i j : Nat) (ts : List Token) : Prop :=
  (∀ t ∈ ts, ∃ b, i ≤ b ∧ b < j ∧ WrittenAt s b t) ∧ ts.Pairwise fun t u => t.stop ≤ u.start

theorem string_tokens_from (hs : s.Sound) :
    From s i (many1 (kind .string)) fun j ts => Took s i j [] ∧ StandInOrder s i j ts := by
  have hnext : ∀ {j ts u}, i ≤ j → StandInOrder s i j ts → WrittenAt s j u →
      StandInOrder s i (j + 1) (ts ++ [u]) := by
    intro j ts u hij hts hu
    refine ⟨List.forall_mem_append.mpr ⟨fun t ht => ?_,
      List.forall_mem_singleton.mpr ⟨j, hij, Nat.lt_succ_self j, hu⟩⟩,
      List.pairwise_append.mpr ⟨hts.2, List.pairwise_singleton .., fun t ht v hv => ?_⟩⟩
    · obtain ⟨b, hb, hbj, ht⟩ := hts.1 t ht
      exact ⟨b, hb, Nat.lt_succ_of_lt hbj, ht⟩
    · obtain ⟨b, hb, hbj, ht⟩ := hts.1 t ht
      obtain rfl := List.mem_singleton.mp hv
      exact hs.stop_le_start ht hu hbj
  refine From.string.bind fun j t ht => ?_
  obtain ⟨rfl, ht⟩ := ht
  have hone : Took s i (i + 1) [] := .token ht
  have hnone : StandInOrder s i i [] := ⟨nofun, .nil⟩
  have hfirst : StandInOrder s i (i + 1) [t] := hnext (Nat.le_refl i) hnone ht
  have hmany : From s (i + 1) (many (kind .string)) fun j ts =>
      Took s i j [] ∧ StandInOrder s i j ([t] ++ ts) := by
    refine .many ⟨hone, hfirst⟩ fun j ts hts => From.string.mono fun k u hu => ?_
    obtain ⟨rfl, hu⟩ := hu
    have hstring : Took s j (j + 1) [] := .token hu
    exact ⟨hts.1.append hstring.toPassed hs,
      List.append_assoc [t] ts [u] ▸ hnext (Nat.le_of_lt hts.1.lt) hts.2 hu⟩
  exact hmany.bind fun j ts hts => .pure hts

/-- The expressions of strings that stand in order are held by their range. -/
theorem strings_held {j : Nat} {ts : List Token} {fields : List (List Expr)} (htook : Took s i j [])
    (hts : StandInOrder s i j ts)
    (hfields : List.Forall₂ (fun t es => AllPlacedIn t.start t.stop t.lexeme es) ts fields) :
    Held s i j fields.flatten := by
  have hplaced : (∀ e ∈ fields.flatten, ∃ t ∈ ts, PlacedIn t.start t.stop e ∧ SpelledIn t.lexeme e) ∧
      fields.flatten.Pairwise Expr.Apart := by
    have hordered := hts.2
    clear hts
    induction hfields with
    | nil => exact ⟨nofun, .nil⟩
    | @cons t es ts fields hes _ ih =>
      obtain ⟨hfirst, hordered⟩ := List.pairwise_cons.mp hordered
      obtain ⟨hmore, hapart⟩ := ih hordered
      rw [List.flatten_cons]
      refine ⟨List.forall_mem_append.mpr ⟨fun e he => ?_, fun e he => ?_⟩,
        List.pairwise_append.mpr ⟨hes.2, hapart, fun e he f hf => ?_⟩⟩
      · exact ⟨t, List.mem_cons_self .., hes.1 e he⟩
      · obtain ⟨u, hu, he⟩ := hmore e he
        exact ⟨u, List.mem_cons_of_mem t hu, he⟩
      · obtain ⟨u, hu, hf⟩ := hmore f hf
        exact .inl (Nat.le_trans (hes.1 e he).1.2.2 (Nat.le_trans (hfirst u hu) hf.1.2.1))
  refine ⟨htook.le, htook.bound, fun e he => ?_, hplaced.2⟩
  obtain ⟨t, ht, ⟨he, hstart, hstop⟩, hspelled⟩ := hplaced.1 e he
  obtain ⟨b, hb, hbj, hwritten⟩ := hts.1 t ht
  obtain ⟨before, behind, field, hwindow, hmarks, hne, hspelled⟩ := hspelled
  refine ⟨he, hspelled.mono fun u hu => ?_, ⟨b, t, hb, hwritten, hstart⟩, b, t, hbj, hwritten, hstop⟩
  exact .field hwritten hwindow hmarks hne hu

theorem strings_takes (hself : self.Sound) (hs : s.Sound) : TakesOne s (strings self) := by
  refine .remember fun i => .located hs ?_
  refine (string_tokens_from hs).bind fun j ts hts => ?_
  obtain ⟨htook, hts⟩ := hts
  simp only
  split
  · exact .raiseFurthest
  · have hread : From s j (ts.mapM (stringFields self)) fun k fields =>
        k = j ∧ List.Forall₂ (fun t es => AllPlacedIn t.start t.stop t.lexeme es) ts fields := by
      refine .mapM fun t ht => ?_
      obtain ⟨b, _, _, hwritten⟩ := hts.1 t ht
      exact string_fields_from hself (hs.lexeme hwritten)
    refine hread.bind fun k fields h => ?_
    obtain ⟨rfl, hfields⟩ := h
    split
    · exact .pure (htook.wrap_held hs fun x => ⟨rfl, strings_held htook hts hfields, trivial⟩)
    · split
      · exact .pure (htook.wrap hs fun x => ⟨rfl, List.nil_subperm, trivial⟩)
      · exact .pure (htook.wrap hs fun x => ⟨rfl, List.nil_subperm, trivial⟩)

/-! ## Atoms -/

theorem number_fitted {text : String} {v : Literal} (h : Numeral.value? text = some v) (x : Extent) :
    (Expr.constant x v).FittedIn s := by
  have hother : ∀ cs, Numeral.value?.other cs = some v → (Expr.constant x v).FittedIn s := by
    intro cs hcs
    unfold Numeral.value?.other at hcs
    simp only at hcs
    split at hcs
    · exact Option.some.inj hcs ▸ trivial
    · split at hcs
      · split at hcs
        · nomatch hcs
        · exact Option.some.inj hcs ▸ trivial
      · exact Option.some.inj hcs ▸ trivial
  unfold Numeral.value? at h
  simp only at h
  split at h
  · split at h
    · exact Option.some.inj h ▸ trivial
    · split at h
      · exact Option.some.inj h ▸ trivial
      · split at h
        · exact Option.some.inj h ▸ trivial
        · exact hother _ h
  · exact hother _ h

theorem number_atom_takes (hs : s.Sound) : TakesOne s numberAtom := by
  intro i
  refine .located hs (From.number.bind fun j t h => ?_)
  split
  · next v hv =>
    exact .pure (h.wrap hs fun x => ⟨rfl, List.nil_subperm, number_fitted hv x⟩)
  · exact .raiseAt

theorem constant_atom_takes (hs : s.Sound) (text : String) (value : Literal)
    (hvalue : ∀ b, value = .bool b → text = "True" ∨ text = "False") :
    TakesOne s (constantAtom text value) := by
  intro i
  refine .located hs (From.symbol_written.bind fun j _ h => ?_)
  obtain ⟨rfl, t, ht, rfl⟩ := h
  have htook : Took s i (i + 1) [] := .token ht
  refine .pure ⟨htook, fun x hx => htook.enclose hs hx htook.toHeld ?_⟩
  cases value with
  | bool b =>
    obtain ⟨first, hfirst, hstart⟩ := hx.first
    obtain ⟨k, last, hk, hki, hlast, hstop⟩ := hx.last
    obtain rfl : k = i := by omega
    obtain rfl := Option.some.inj (ht.1.symm.trans hfirst.1)
    obtain rfl := Option.some.inj (ht.1.symm.trans hlast.1)
    exact ⟨t, .own ht, hvalue b rfl, hstart, hstop⟩
  | _ => exact trivial

section
variable (hself : self.Sound) (hs : s.Sound)
include hself hs

theorem atom_takes : TakesOne s (atom self) := by
  intro i
  have hround : From s i (firstOf [tupleDisplay self, group self, generator self])
      fun j e => Took s i j [e] :=
    .first (tuple_display_takes hself hs i) (.first (group_takes hself hs i)
      (.first ((generator_takes hself hs).mono fun _ _ h => h.1) .none))
  have hsquare : From s i (firstOf [listDisplay self, listComprehension self])
      fun j e => Took s i j [e] :=
    .first (list_display_takes hself hs i) (.first (list_comprehension_takes hself hs i) .none)
  have hcurly : From s i (firstOf [dictDisplay self, setDisplay self, dictComprehension self,
      setComprehension self]) fun j e => Took s i j [e] :=
    .first (dict_display_takes hself hs i) (.first (set_display_takes hself hs i)
      (.first (dict_comprehension_takes hself hs i)
        (.first (set_comprehension_takes hself hs i) .none)))
  refine .first (read_name_takes hs i) (.first (constant_atom_takes hs _ _ (fun _ _ => .inl rfl) i)
    (.first (constant_atom_takes hs _ _ (fun _ _ => .inr rfl) i)
      (.first (constant_atom_takes hs "None" .none nofun i) ?_)))
  refine .first (.after_ahead .string (strings_takes hself hs i)) (.first (number_atom_takes hs i) ?_)
  refine .first (.after_ahead .symbol hround) (.first (.after_ahead .symbol hsquare) ?_)
  exact .first (.after_ahead .symbol hcurly)
    (.first (constant_atom_takes hs "..." .ellipsis nofun i) .none)

/-! ## Subscripts -/

theorem slice_item_takes : TakesOne s (sliceItem self) := by
  intro i
  refine .orElse (.located hs ?_) (hself.namedExpression hs i)
  have hbound := hself.expression hs
  refine hbound.optional.bind fun j lower h => ?_
  refine (h.next_bare hs Takes.symbol).bind fun k _ h => ?_
  refine (h.skip hs hbound.optional).bind fun l upper h => ?_
  have hstep : From s l (optional do let _ ← symbol ":"; optional self.expression)
      fun k step => Passed s l k step.join.toList := by
    refine .optional ?_ .nil
    refine (Takes.symbol l).bind fun k _ h => ?_
    exact (h.skip hs hbound.optional).mono fun m o h => h.toPassed
  refine (h.skip hs hstep).bind fun m step h => ?_
  exact .pure (h.wrap hs fun x => ⟨rfl, .refl _, trivial⟩)

theorem slices_takes : TakesOne s (slices self) := by
  intro i
  refine .orElse ?_ (.located hs ?_)
  · refine (slice_item_takes hself hs i).bind fun j v h => ?_
    refine (From.notAhead .symbol).bind fun k _ hk => ?_
    exact .pure (hk ▸ h)
  · have hitem := (slice_item_takes hself hs).orElse (starred_expression_takes hself hs)
    refine (comma_list_takes_one hs hitem i).bind fun j items h => ?_
    exact .pure (h.wrap hs fun x => ⟨rfl, .refl _, trivial⟩)

end
end Grammar
end BacktestAudit.Syntax
