import BacktestAudit.Proofs.Syntax.Placed.Operation
import BacktestAudit.Syntax.Grammar.Pattern

/-!
Patterns move on, whatever they match.
-/
namespace BacktestAudit.Syntax.Grammar
open BacktestAudit.Source BacktestAudit.Syntax.Parser
set_option autoImplicit false

variable {self : Rules} {s : Setting} {α : Type} {m : Parser α}

theorem symbol_moves {text : String} : Moves s (symbol text) := Takes.symbol.moves

theorem comma_moves : Moves s comma := symbol_moves

theorem name_moves : Moves s anyName := Takes.name.moves

theorem is_any_of_moves (texts : List String) : Moves s (isAnyOf texts) :=
  (is_any_of_bare texts).moves

section
variable (hs : s.Sound)
include hs

theorem void_moves (h : Moves s m) : Moves s (void m) := h.bind hs fun _ => .done

/-! ## Numbers, names and literals -/

theorem number_moves : Moves s numberAtom := (number_atom_takes hs).moves

theorem signed_number_moves : Moves s signedNumber :=
  (void_moves hs (number_moves hs)).orElse
    (symbol_moves.bind hs fun _ => void_moves hs (number_moves hs))

theorem complex_number_moves : Moves s complexNumber := by
  refine symbol_moves.optional.bind hs fun _ => ?_
  refine Moves.peek.bind hs fun real => (number_moves hs).bind hs fun _ => ?_
  have hrest : Moves s (do
      let _ ← isAnyOf ["+", "-"]
      let imaginary ← peek
      let _ ← numberAtom
      if isImaginary imaginary then return () else raiseAtToken imaginary) := by
    refine (is_any_of_moves _).bind hs fun _ => ?_
    refine Moves.peek.bind hs fun imaginary => (number_moves hs).bind hs fun _ => ?_
    split
    · exact .done
    · exact fun _ => .raiseAt
  simp only
  split
  · exact fun _ => From.bind (R := fun _ _ => False) .raiseAt fun _ _ h => h.elim
  · exact hrest

theorem literal_pattern_moves (hself : self.Sound) : Moves s (literalPattern self) :=
  fun i => .first ((signed_number_moves hs).bind hs (fun _ => (is_any_of_moves _).notAhead) i)
    (.first (complex_number_moves hs i)
      (.first (void_moves hs (strings_takes hself hs).moves i)
        (.first (void_moves hs (is_any_of_moves _) i) .none)))

theorem capture_target_moves : Moves s captureTarget :=
  Takes.softKeyword.moves.notAhead.bind hs fun _ =>
    name_moves.bind hs fun _ => (is_any_of_moves _).notAhead

theorem point_name_moves : Moves s (do let _ ← symbol "."; anyName) :=
  symbol_moves.bind hs fun _ => name_moves

theorem name_or_member_moves : Moves s nameOrMember :=
  name_moves.bind hs fun _ => void_moves hs ((point_name_moves hs).many hs)

theorem member_path_moves : Moves s memberPath :=
  name_moves.bind hs fun _ => void_moves hs ((point_name_moves hs).many1 hs)

/-! ## Patterns -/

theorem star_pattern_moves : Moves s starPattern := by
  have hstar : Moves s (do
      let _ ← symbol "*"
      captureTarget <|> void (softKeyword "_")) :=
    symbol_moves.bind hs fun _ =>
      (capture_target_moves hs).orElse (void_moves hs Takes.softKeyword.moves)
  exact fun i => .remember (hstar i)

theorem rest_pattern_moves : Moves s restPattern :=
  symbol_moves.bind hs fun _ => capture_target_moves hs

variable (hself : self.Sound)
include hself

theorem maybe_star_pattern_moves : Moves s (maybeStarPattern self) :=
  (star_pattern_moves hs).orElse (hself.pattern hs)

theorem maybe_sequence_moves : Moves s (maybeSequence self) :=
  void_moves hs (((maybe_star_pattern_moves hs hself).sepBy1 hs symbol_moves).bind hs fun _ =>
    symbol_moves.optional.bind hs fun _ => .done)

theorem open_sequence_moves : Moves s (openSequence self) :=
  (maybe_star_pattern_moves hs hself).bind hs fun _ => symbol_moves.bind hs fun _ =>
    void_moves hs (maybe_sequence_moves hs hself).optional

theorem sequence_pattern_moves : Moves s (sequencePattern self) :=
  Moves.orElse
    (symbol_moves.bind hs fun _ => (maybe_sequence_moves hs hself).optional.bind hs fun _ =>
      void_moves hs symbol_moves)
    (symbol_moves.bind hs fun _ => (open_sequence_moves hs hself).optional.bind hs fun _ =>
      void_moves hs symbol_moves)

theorem key_pattern_moves : Moves s (keyPattern self) :=
  ((literal_pattern_moves hs hself).orElse (member_path_moves hs)).bind hs fun _ =>
    symbol_moves.bind hs fun _ => hself.pattern hs

theorem mapping_pattern_moves : Moves s (mappingPattern self) := by
  have hkeys := (key_pattern_moves hs hself).sepBy1 hs comma_moves
  have hclose : Moves s (void (symbol "\x7d")) := void_moves hs symbol_moves
  have hlast : Moves s (do let _ ← optional comma; void (symbol "\x7d")) :=
    symbol_moves.optional.bind hs fun _ => hclose
  intro i
  refine .first (symbol_moves.bind hs (fun _ => hclose) i) (.first ?_ (.first ?_ (.first ?_ .none)))
  · exact symbol_moves.bind hs (fun _ => (rest_pattern_moves hs).bind hs fun _ => hlast) i
  · exact symbol_moves.bind hs (fun _ => hkeys.bind hs fun _ => symbol_moves.bind hs fun _ =>
      (rest_pattern_moves hs).bind hs fun _ => hlast) i
  · exact symbol_moves.bind hs (fun _ => hkeys.bind hs fun _ => hlast) i

theorem named_pattern_moves : Moves s (namedPattern self) :=
  name_moves.bind hs fun _ => symbol_moves.bind hs fun _ => hself.pattern hs

theorem class_pattern_moves : Moves s (classPattern self) := by
  have hplain := (hself.pattern hs).sepBy1 hs comma_moves
  have hnamed := (named_pattern_moves hs hself).sepBy1 hs comma_moves
  have hclose : Moves s (void (symbol ")")) := void_moves hs symbol_moves
  have hlast : Moves s (do let _ ← optional comma; void (symbol ")")) :=
    symbol_moves.optional.bind hs fun _ => hclose
  have hopen : ∀ {n : Parser Unit}, Moves s n →
      Moves s (do nameOrMember; let _ ← symbol "("; n) :=
    fun hn => (name_or_member_moves hs).bind hs fun _ => symbol_moves.bind hs fun _ => hn
  intro i
  refine .first (hopen hclose i) (.first (hopen ?_ i) (.first (hopen ?_ i) (.first (hopen ?_ i)
    (.first (.diagnosing hs) .none))))
  · exact hplain.bind hs fun _ => hlast
  · exact hnamed.bind hs fun _ => hlast
  · exact hplain.bind hs fun _ => symbol_moves.bind hs fun _ => hnamed.bind hs fun _ => hlast

theorem closed_pattern_moves : Moves s (closedPattern self) := by
  have hbrackets : Moves s (do
      let _ ← symbol "("
      self.pattern
      void (symbol ")")) :=
    symbol_moves.bind hs fun _ => (hself.pattern hs).bind hs fun _ => void_moves hs symbol_moves
  have hpath : Moves s (do
      memberPath
      notAhead (isAnyOf [".", "(", "="])) :=
    (member_path_moves hs).bind hs fun _ => (is_any_of_moves _).notAhead
  refine fun i => .remember ?_
  refine .first (literal_pattern_moves hs hself i) (.first (capture_target_moves hs i)
    (.first (void_moves hs Takes.softKeyword.moves i) (.first (hpath i) (.first (hbrackets i) ?_))))
  exact .first (sequence_pattern_moves hs hself i) (.first (mapping_pattern_moves hs hself i)
    (.first (class_pattern_moves hs hself i) .none))

theorem or_pattern_moves : Moves s (orPattern self) :=
  void_moves hs ((closed_pattern_moves hs hself).sepBy1 hs symbol_moves)

theorem pattern_moves : Moves s (pattern self) := by
  have has : Moves s (do
      orPattern self
      let _ ← symbol "as"
      captureTarget) :=
    (or_pattern_moves hs hself).bind hs fun _ => symbol_moves.bind hs fun _ =>
      capture_target_moves hs
  exact fun i => .first (has i) (.first (.diagnosing hs) (.first (or_pattern_moves hs hself i) .none))

theorem patterns_moves : Moves s (patterns self) :=
  (open_sequence_moves hs hself).orElse (pattern_moves hs hself)

end
end BacktestAudit.Syntax.Grammar
