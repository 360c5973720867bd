import BacktestAudit.Proofs.Syntax.Laid
import BacktestAudit.Syntax.StringLiteral

/-!
The expressions inside formatted strings. Each of them is a part of the string with a brace before it
and a mark behind it, so that it can be read in brackets of its own.
-/
namespace BacktestAudit.Syntax.StringLiteral
set_option autoImplicit false

/-- What may stand before or behind an expression. -/
def isMark (c : Char) : Bool := c ∈ ['!', ':', '=', '<', '>', '\x7b', '\x7d']

theorem ne_newline_of_mark {c : Char} (h : isMark c = true) : c ≠ '\n' := by
  rintro rfl
  cases h

theorem size_of_mark {c : Char} (h : isMark c = true) : c.utf8Size = 1 := by
  have hall : ['!', ':', '=', '<', '>', '\x7b', '\x7d'].all (·.utf8Size = 1) = true := by decide
  exact of_decide_eq_true (List.all_eq_true.mp hall c (of_decide_eq_true h))

theorem mark_of_brace {c : Char} (h : (c = '\x7b' || c = '\x7d') = true) : isMark c = true := by
  rw [Bool.or_eq_true, decide_eq_true_eq, decide_eq_true_eq] at h
  rcases h with rfl | rfl <;> rfl

/-- A length of a part of a run that a mark follows. -/
def Stops (gs : List Glyph) (length : Option Nat) : Prop :=
  ∀ n, length = some n → ∃ c, gs[n]? = some c ∧ isMark c.char = true

theorem Stops.behind {g : Glyph} {rest : List Glyph} {k : Nat} {length : Option Nat}
    (h : Stops (rest.drop k) length) : Stops (g :: rest) (length.map (· + (k + 1))) := by
  intro m hm
  obtain ⟨n, hn, rfl⟩ := Option.map_eq_some_iff.mp hm
  obtain ⟨c, hc, hmark⟩ := h n hn
  rw [List.getElem?_drop] at hc
  refine ⟨c, ?_, hmark⟩
  rw [← Nat.add_assoc, List.getElem?_cons_succ, Nat.add_comm]
  exact hc

theorem expression_length_stops (brackets : List Char) (quote : Option (Char × Nat)) (fuel : Nat)
    (gs : List Glyph) : Stops gs (expressionLength brackets quote fuel gs) := by
  fun_induction expressionLength brackets quote fuel gs with
  | case1 | case2 | case3 | case11 | case16 | case17 => nofun
  | case4 | case8 | case12 =>
    rename_i ih
    exact ih.behind
  | case5 | case6 | case7 | case9 | case10 | case13 | case15 | case18 =>
    rename_i ih
    exact Stops.behind (k := 0) ih
  | case14 _ _ g rest c _ _ _ _ hend =>
    intro n hn
    obtain rfl := Option.some.inj hn
    have hmark : c ∈ ['!', ':', '\x7d', '=', '<', '>'] :=
      of_decide_eq_true (Bool.and_eq_true_iff.mp hend).2
    have hall : ['!', ':', '\x7d', '=', '<', '>'].all isMark = true := by decide
    exact ⟨g, rfl, List.all_eq_true.mp hall c hmark⟩

/-! ## What is left behind -/

/-- A split of a run whose second part ends it, and begins with a brace unless it is empty. -/
def Leaves (gs : List Glyph) (split : Option (List Glyph × List Glyph)) : Prop :=
  ∀ part left, split = some (part, left) → left <:+ gs ∧ ∀ g ∈ left.head?, isMark g.char = true

namespace Leaves

variable {g : Glyph} {gs after : List Glyph} {split : Option (List Glyph × List Glyph)}

theorem map {f : List Glyph → List Glyph} (h : Leaves after split) (hsuffix : after <:+ gs) :
    Leaves gs (split.map fun (part, left) => (f part, left)) := by
  intro part left hfound
  obtain ⟨⟨inner, left⟩, hinner, heq⟩ := Option.map_eq_some_iff.mp hfound
  obtain ⟨hleft, hmark⟩ := h inner left hinner
  exact (Prod.mk.inj heq).2 ▸ ⟨hleft.trans hsuffix, hmark⟩

theorem whole (hg : isMark g.char = true) : Leaves (g :: gs) (some ([], g :: gs)) := by
  intro _ left hfound
  obtain rfl : g :: gs = left := (Prod.mk.inj (Option.some.inj hfound)).2
  exact ⟨List.suffix_refl _, fun d hd => Option.some.inj hd ▸ hg⟩

theorem nothing : Leaves gs (some ([], [])) := by
  intro _ left hfound
  obtain rfl : [] = left := (Prod.mk.inj (Option.some.inj hfound)).2
  exact ⟨List.nil_suffix, nofun⟩

/-- A brace stands for itself in front of another, and ends the part otherwise. -/
theorem brace (hg : isMark g.char = true) {level : Nat}
    {read : List Glyph → Option (List Glyph × List Glyph)} (h : ∀ more, Leaves more (read more)) :
    Leaves (g :: after)
      (if level = 0 then
        match after with
        | n :: more =>
          if n.char = g.char then (read more).map fun (part, left) => (g :: part, left)
          else if g.char = '\x7d' then none
          else some ([], g :: after)
        | [] => if g.char = '\x7d' then none else some ([], [g])
      else some ([], g :: after)) := by
  split
  · split
    · next n more =>
      split
      · exact (h more).map ((List.suffix_cons n more).trans (List.suffix_cons g _))
      · split
        · nofun
        · exact whole hg
    · split
      · nofun
      · exact whole hg
  · exact whole hg

end Leaves

theorem literal_part_leaves (isRaw : Bool) (level fuel : Nat) (gs : List Glyph) :
    Leaves gs (literalPart isRaw level fuel gs) := by
  fun_induction literalPart isRaw level fuel gs with
  | case1 => exact .nothing
  | case2 => nofun
  | case3 =>
    rename_i hbrace ih
    exact .brace (mark_of_brace hbrace) ih
  | case4 _ g _ _ _ n _ b name _ _ _ _ ih =>
    have hname : name <:+ g :: n :: b :: name :=
      (List.suffix_cons b name).trans ((List.suffix_cons n _).trans (List.suffix_cons g _))
    exact ih.map ((List.drop_suffix _ name).trans hname)
  | case5 _ g _ _ _ n =>
    rename_i ih
    exact ih.map ((List.suffix_cons n _).trans (List.suffix_cons g _))
  | case6 | case9 => exact Leaves.nothing.map (List.nil_suffix)
  | case7 _ g =>
    rename_i hbrace ih
    exact (Leaves.brace (mark_of_brace hbrace) ih).map (List.suffix_cons g _)
  | case8 _ g _ _ _ n more =>
    rename_i ih
    exact ih.map ((List.suffix_cons n more).trans (List.suffix_cons g _))
  | case10 _ g rest =>
    rename_i ih
    exact ih.map (List.suffix_cons g rest)

/-- What may follow an expression in its field: an equals sign with blanks. -/
theorem after_equals_suffix (gs : List Glyph) :
    (match gs with
      | e :: more =>
        if e.char = '=' then more.dropWhile (fun (b : Glyph) => isAsciiBlank b.char) else e :: more
      | [] => []) <:+ gs := by
  split
  · next e more =>
    split
    · exact (List.dropWhile_suffix _).trans (List.suffix_cons e more)
    · exact List.suffix_refl _
  · exact List.suffix_refl _

/-- What may follow that: a conversion. -/
theorem after_conversion_suffix {gs left : List Glyph}
    (h : (match gs with
      | e :: more =>
        if e.char = '!' then
          match more with
          | k :: more => if k.char ∈ ['s', 'r', 'a'] then some more else none
          | [] => none
        else some (e :: more)
      | [] => none) = some left) : left <:+ gs := by
  split at h
  · next e more =>
    split at h
    · split at h
      · next k more =>
        split at h
        · exact Option.some.inj h ▸ (List.suffix_cons k more).trans (List.suffix_cons e _)
        · cases h
      · cases h
    · exact Option.some.inj h ▸ List.suffix_refl _
  · cases h

/-! ## Fields -/

/-- Fields of a run, one behind the other, with what is left of it. Each has a mark before it and one
behind it. -/
inductive Enclosed (left : List Glyph) : List Glyph → List (List Glyph) → Prop where
  | nil {gs : List Glyph} (hleft : left <:+ gs) : Enclosed left gs []
  | cons {before behind : Glyph} {gs field rest : List Glyph} {fields : List (List Glyph)}
      (hwindow : before :: (field ++ behind :: rest) <:+ gs)
      (hmarks : isMark before.char = true ∧ isMark behind.char = true)
      (hmore : Enclosed left rest fields) : Enclosed left gs (field :: fields)

namespace Enclosed

variable {left less gs rest : List Glyph} {fields more : List (List Glyph)}

theorem of_suffix (h : Enclosed left rest fields) (hsuffix : rest <:+ gs) :
    Enclosed left gs fields := by
  cases h with
  | nil hleft => exact .nil (hleft.trans hsuffix)
  | cons hwindow hmarks hmore => exact .cons (hwindow.trans hsuffix) hmarks hmore

theorem append (h : Enclosed rest gs fields) (hmore : Enclosed left rest more) :
    Enclosed left gs (fields ++ more) := by
  induction h with
  | nil hleft => exact hmore.of_suffix hleft
  | cons hwindow hmarks _ ih => exact .cons hwindow hmarks ih

theorem leave (h : Enclosed left gs fields) (hless : less <:+ left) : Enclosed less gs fields :=
  List.append_nil fields ▸ h.append (.nil hless)

end Enclosed

/-- The fields of a run that is well formed are enclosed in it. -/
def FieldsOf (gs : List Glyph) (found : Fields × List Glyph) : Prop :=
  found.1.wellFormed = true → Enclosed found.2 gs found.1.expressions

/-- What is read behind an expression: a specification of its format, if any. -/
theorem specification_enclosed {l : StringLiteral} {fuel level : Nat} {behind e : Glyph}
    {gs rest more : List Glyph} {found : Fields × List Glyph}
    (ih : ∀ more, FieldsOf more (readFields l fuel level more))
    (h : (match gs with
      | e :: more =>
        if e.char = ':' then
          if more.isEmpty then (.broken, []) else readFields l fuel level more
        else (.done, e :: more)
      | [] => (.broken, [])) = found)
    (hsuffix : gs <:+ behind :: rest) (hwell : found.1.wellFormed = true) (hleft : found.2 = e :: more) :
    Enclosed more rest found.1.expressions := by
  cases gs with
  | nil =>
    subst h
    cases hwell
  | cons c after =>
    have hafter : after <:+ rest := by
      rcases List.suffix_cons_iff.mp hsuffix with heq | hmore
      · exact (List.cons.inj heq).2 ▸ List.suffix_refl after
      · exact (List.suffix_cons c after).trans hmore
    simp only at h
    split at h
    · split at h
      · subst h
        cases hwell
      · have hspec := ih after
        rw [h] at hspec
        exact ((hspec hwell).leave (hleft ▸ List.suffix_cons e more)).of_suffix hafter
    · subst h
      exact .nil ((List.cons.inj hleft).2 ▸ hafter)

/-- An expression is enclosed between the brace before it and what ends it. -/
theorem expression_enclosed {g : Glyph} {inner gs left : List Glyph} {fields : List (List Glyph)}
    {fuel n : Nat} (hsuffix : g :: inner <:+ gs) (hg : isMark g.char = true)
    (h : expressionLength [] none fuel inner = some n)
    (hmore : ∀ behind, inner.drop n = behind :: inner.drop (n + 1) →
      Enclosed left (inner.drop (n + 1)) fields) :
    Enclosed left gs (inner.take n :: fields) := by
  obtain ⟨c, hc, hmark⟩ := expression_length_stops _ _ _ _ n h
  obtain ⟨hn, rfl⟩ := List.getElem?_eq_some_iff.mp hc
  have hdrop : inner.drop n = inner[n] :: inner.drop (n + 1) := List.drop_eq_getElem_cons hn
  have hwindow : g :: (inner.take n ++ inner[n] :: inner.drop (n + 1)) <:+ gs := by
    rw [← hdrop, List.take_append_drop]
    exact hsuffix
  exact .cons hwindow ⟨hg, hmark⟩ (hmore inner[n] hdrop)

theorem read_fields_enclosed (l : StringLiteral) (fuel level : Nat) (gs : List Glyph) :
    FieldsOf gs (readFields l fuel level gs) := by
  fun_induction readFields l fuel level gs with
  | case1 | case2 | case3 | case6 | case7 | case8 | case11 | case12 => nofun
  | case4 =>
    rename_i hpart
    exact fun _ => .nil (literal_part_leaves _ _ _ _ _ _ hpart).1
  | case5 =>
    rename_i hpart
    exact fun _ => .nil (literal_part_leaves _ _ _ _ _ _ hpart).1
  | case9 =>
    rename_i next _ _ hbroken _ _
    intro hwell
    have hspecified : next.wellFormed = true := hwell
    rw [hspecified] at hbroken
    cases hbroken
  | case10 =>
    rename_i hn _ _ _ _ more hmore next hnext e rest _ last left hlast hpart hspec ihspec ih
    intro hwell
    have hsuffix := (after_conversion_suffix hmore).trans (after_equals_suffix _)
    obtain ⟨hleft, hmark⟩ := literal_part_leaves _ _ _ _ _ _ hpart
    refine expression_enclosed hleft (hmark _ rfl) hn fun behind hdrop => ?_
    rw [hdrop] at hsuffix
    -- What follows in the string begins behind the brace that closes this field.
    have hspecified : next.wellFormed = true := by simpa using hnext
    have hfields := specification_enclosed ihspec hspec hsuffix hspecified rfl
    rw [hlast] at ih
    exact hfields.append (ih hwell)

theorem body_infix (lexeme : List Glyph) : (ofLexeme lexeme).body <:+: lexeme :=
  (List.take_prefix ..).isInfix.trans ((List.drop_suffix ..).trans (List.drop_suffix ..)).isInfix

end BacktestAudit.Syntax.StringLiteral
