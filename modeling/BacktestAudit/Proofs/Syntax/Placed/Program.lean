import BacktestAudit.Proofs.Syntax.Placed.Compound
import BacktestAudit.Syntax.Unit

/-!
The places of the expressions of a unit. They stand inside its text, one apart from another, each
with its parts inside; and its assignments have the targets that they may have.
-/
namespace BacktestAudit.Syntax
open BacktestAudit.Source BacktestAudit.Syntax.Parser BacktestAudit.Text
set_option autoImplicit false

namespace Grammar

theorem too_deep_from {α : Type} {s : Setting} {i : Nat} {R : Nat → α → Prop} :
    From s i tooDeep R :=
  fun _ _ _ => trivial

/-- The rules of every level take what they give: those of level zero give nothing. -/
theorem level_sound (n : Nat) : (level n).Sound := by
  induction n with
  | zero => constructor <;> intros <;> first | exact too_deep_from | exact fun _ => too_deep_from
  | succ n ih =>
    exact {
      expression := fun hs => expression_takes ih hs
      namedExpression := fun hs => named_expression_takes ih hs
      disjunction := fun hs => disjunction_takes ih hs
      inversion := fun hs => inversion_takes ih hs
      bitwiseOr := fun hs => bitwise_or_takes ih hs
      factor := fun hs => factor_takes ih hs
      starTarget := fun hs => star_target_takes ih hs
      starTargets := fun hs => star_targets_takes ih hs
      starAtomTarget := fun hs => star_atom_target_takes ih hs
      singleTarget := fun hs => single_target_takes ih hs
      isSingle := fun hs => single_target_single ih hs
      deletionTarget := fun hs => deletion_target_takes ih hs
      pattern := fun hs => pattern_moves hs ih
      elifStmt := fun hs => elif_stmt_holds ih hs
      statements := fun hs => statements_holds ih hs }

end Grammar

theorem parse_program_eq_ok {text : String} {ss : List Stmt} (h : parseProgram text = .ok ss) :
    (Lexer.ofGlyphs (Glyph.ofText text)).parse (Grammar.program (Grammar.level (2 * maxDepth))) =
      .ok ss := by
  unfold parseProgram at h
  split at h
  · cases h
  · cases hstream : (Lexer.ofGlyphs (Glyph.ofText text)).parse
        (Grammar.program (Grammar.level (2 * maxDepth))) with
    | error fault =>
      simp only [hstream, Bind.bind, Except.bind] at h
      cases h
    | ok read =>
      simp only [hstream, Bind.bind, Except.bind, Pure.pure, Except.pure] at h
      split at h
      · cases h
      · exact h

namespace SourceUnit

theorem parse_houses {text name : String} {u : SourceUnit} (h : parse text name = .ok u) :
    ∃ j, Houses ⟨Lexer.ofGlyphs (Glyph.ofText text), false⟩ 0 j u.statements := by
  have hs : Setting.Sound ⟨Lexer.ofGlyphs (Glyph.ofText text), false⟩ :=
    ⟨rfl, _, _, Lexer.of_glyphs_laid (laid_of_text text)⟩
  obtain ⟨_, _, hprogram⟩ := parse_eq_ok h
  have hread := Grammar.program_holds (Grammar.level_sound (2 * maxDepth)) hs 0
  exact TokenStream.parse_from hread (parse_program_eq_ok hprogram)

/-- The expressions of a unit have places inside the text, one apart from another. -/
theorem expressions_placed {text name : String} {u : SourceUnit} (h : parse text name = .ok u) :
    (∀ e ∈ Stmt.expressionsOfAll u.statements, e.Placed ∧ e.extent.stop ≤ (encode text).length) ∧
      (Stmt.expressionsOfAll u.statements).Pairwise Expr.Apart := by
  obtain ⟨j, hread⟩ := parse_houses h
  refine ⟨fun e he => ?_, hread.apart⟩
  have hstands := hread.stands e he
  have hwithin := hstands.within (Lexer.of_glyphs_laid (laid_of_text text))
  exact ⟨hstands.placed, hwithin.2⟩

/-- The expressions of a unit begin and end with tokens that are read from its text. -/
theorem expressions_spelled {text name : String} {u : SourceUnit} (h : parse text name = .ok u) :
    ∀ e ∈ Stmt.expressionsOfAll u.statements,
      e.Spelled ⟨Lexer.ofGlyphs (Glyph.ofText text), false⟩ := by
  obtain ⟨j, hread⟩ := parse_houses h
  exact fun e he => (hread.stands e he).spelled

/-- The assignments of a unit have targets, and the augmented ones single targets. -/
theorem statements_proper {text name : String} {u : SourceUnit} (h : parse text name = .ok u) :
    Stmt.areProper u.statements = true :=
  (parse_houses h).elim fun _ hread => hread.proper

end SourceUnit
end BacktestAudit.Syntax
