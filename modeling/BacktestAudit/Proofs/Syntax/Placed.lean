import BacktestAudit.Proofs.Syntax.Fields
import BacktestAudit.Proofs.Syntax.Lexed
import BacktestAudit.Syntax.Grammar.Atom
import Mathlib.Data.List.Perm.Subperm

/-!
The places of expressions. An expression is placed when it takes up bytes of the text with its parts
among them; it is spelled when it begins and ends with tokens that were read. What is read between two
tokens stands there, and what is read later stands behind it.
-/
namespace BacktestAudit.Syntax
open BacktestAudit.Source
set_option autoImplicit false

/-! ## Expressions -/

namespace Expr

/-- Two expressions of which one ends where the other begins, or before. -/
def Apart (a b : Expr) : Prop :=
  a.extent.stop ≤ b.extent.start ∨ b.extent.stop ≤ a.extent.start

theorem Apart.symm {a b : Expr} (h : Apart a b) : Apart b a := Or.symm h

/-- What a member and a call need besides. A member ends with its name; a call ends with its bracket,
behind what is called and behind the arguments by name, and its arguments stand behind what is
called. -/
def Fitted : Expr → Prop
  | member e v attr => 0 < attr.utf8ByteSize ∧ v.extent.stop + attr.utf8ByteSize ≤ e.stop
  | call e f as => f.extent.stop < e.stop ∧ (∀ a ∈ as, a.isKeyword = true → a.extent.stop < e.stop) ∧
      ∀ a ∈ as, f.extent.stop ≤ a.extent.start
  | _ => True

/-- An expression that takes up bytes, with placed expressions inside, one apart from another. -/
inductive Placed : Expr → Prop where
  | intro {e : Expr} (start_lt : e.extent.start < e.extent.stop)
      (inside : ∀ c ∈ e.children, e.extent.start ≤ c.extent.start ∧ c.extent.stop ≤ e.extent.stop)
      (apart : e.children.Pairwise Apart) (children : ∀ c ∈ e.children, Placed c)
      (fitted : e.Fitted) : Placed e

namespace Placed

variable {e c : Expr}

theorem start_lt (h : Placed e) : e.extent.start < e.extent.stop := by
  cases h with
  | intro hlt _ _ _ _ => exact hlt

theorem inside (h : Placed e) (hc : c ∈ e.children) :
    e.extent.start ≤ c.extent.start ∧ c.extent.stop ≤ e.extent.stop := by
  cases h with
  | intro _ hinside _ _ _ => exact hinside c hc

theorem apart (h : Placed e) : e.children.Pairwise Apart := by
  cases h with
  | intro _ _ hapart _ _ => exact hapart

theorem child (h : Placed e) (hc : c ∈ e.children) : Placed c := by
  cases h with
  | intro _ _ _ hchildren _ => exact hchildren c hc

theorem fitted (h : Placed e) : e.Fitted := by
  cases h with
  | intro _ _ _ _ hfitted => exact hfitted

end Placed
end Expr

namespace Stmt

mutual

/-- The expressions that stand in a statement, at any depth of statements. -/
def expressions : Stmt → List Expr
  | assign _ targets value => targets ++ [value]
  | annotate _ target typeHint value => target :: typeHint :: value.toList
  | augment _ target value => [target, value]
  | evaluate _ value => [value]
  | imports .. => []
  | define _ _ _ signature parts => signature ++ expressionsOfAll parts
  | compound _ _ parts => expressionsOfAll parts

def expressionsOfAll : List Stmt → List Expr
  | [] => []
  | s :: ss => expressions s ++ expressionsOfAll ss

end

@[simp] theorem expressions_of_all_nil : expressionsOfAll [] = [] := rfl

@[simp] theorem expressions_of_all_cons (s : Stmt) (ss : List Stmt) :
    expressionsOfAll (s :: ss) = expressions s ++ expressionsOfAll ss := rfl

@[simp] theorem expressions_of_expr (e : Expr) : expressions (ofExpr e) = [e] := rfl

@[simp] theorem expressions_compound (x : Extent) (kind : StatementKind) (parts : List Stmt) :
    expressions (compound x kind parts) = expressionsOfAll parts := by
  rw [expressions]

@[simp] theorem expressions_imports (x : Extent) (kind : StatementKind) (names : List String) :
    expressions (imports x kind names) = [] := by
  rw [expressions]

@[simp] theorem expressions_of_all_append (ss rest : List Stmt) :
    expressionsOfAll (ss ++ rest) = expressionsOfAll ss ++ expressionsOfAll rest := by
  induction ss with
  | nil => rfl
  | cons s ss ih => rw [List.cons_append, expressionsOfAll, ih, ← List.append_assoc, expressionsOfAll]

@[simp] theorem expressions_of_all_map (es : List Expr) :
    expressionsOfAll (es.map ofExpr) = es := by
  induction es with
  | nil => rfl
  | cons e es ih => rw [List.map_cons, expressionsOfAll, ih]; rfl

end Stmt

/-! ## Ranges of tokens -/

/-- What a parse without the rules that tell faults apart reads: tokens one behind the other. -/
structure Setting.Sound (s : Setting) : Prop where
  plain : s.diagnosing = false
  laid : ∃ lo hi, Lexer.TokensLaid lo hi s.stream.tokens.toList

/-- A token that stands for characters is at a place of the stream. -/
def WrittenAt (s : Setting) (i : Nat) (t : Token) : Prop :=
  s.stream.tokens[i]? = some t ∧ t.isLayout = false

/-- A token that is read from a stream: one of its own, or one of an expression that stands in a
string among them, between two marks. -/
inductive Setting.Reads : Setting → Token → Prop where
  | own {s : Setting} {i : Nat} {t : Token} (ht : WrittenAt s i t) : Reads s t
  | field {s : Setting} {i : Nat} {u t : Token} {before behind : Glyph} {field : List Glyph}
      (hu : WrittenAt s i u) (hwindow : before :: (field ++ [behind]) <:+: u.lexeme)
      (hmarks : StringLiteral.isMark before.char = true ∧ StringLiteral.isMark behind.char = true)
      (hne : field ≠ []) (ht : Reads ⟨Grammar.fieldStream field, false⟩ t) : Reads s t

namespace Expr

/-- What a name, a member, a call and a truth value need besides, with the tokens that tell so: the
word of the name, the name of the member, the bracket of a call with arguments by name, the word of
the truth value. -/
def FittedIn (s : Setting) : Expr → Prop
  | name _ id _ => id ≠ "" ∧ ∃ t, s.Reads t ∧ t.kind = .name ∧ t.text = id
  | member e v attr => Fitted (member e v attr) ∧
      ∃ t, s.Reads t ∧ t.kind = .name ∧ t.text = attr ∧ e.stop = t.stop
  | call e f as => Fitted (call e f as) ∧
      ((∃ a ∈ as, a.isKeyword = true) → ∃ t, s.Reads t ∧ t.text = ")" ∧ e.stop = t.stop)
  | constant e (.bool _) =>
      ∃ t, s.Reads t ∧ (t.text = "True" ∨ t.text = "False") ∧ e.start = t.start ∧ e.stop = t.stop
  | _ => True

theorem FittedIn.fitted {s : Setting} {e : Expr} (h : e.FittedIn s) : e.Fitted := by
  cases e with
  | member | call => exact h.1
  | _ => exact trivial

/-- An expression that begins and ends with tokens that are read from a stream, and so do the
expressions inside. -/
inductive Spelled (s : Setting) : Expr → Prop where
  | intro {e : Expr} (first : ∃ t, s.Reads t ∧ e.extent.start = t.start)
      (last : ∃ t, s.Reads t ∧ e.extent.stop = t.stop) (fitted : e.FittedIn s)
      (children : ∀ c ∈ e.children, Spelled s c) : Spelled s e

theorem FittedIn.mono {s s' : Setting} {e : Expr} (h : e.FittedIn s)
    (hreads : ∀ t, s.Reads t → s'.Reads t) : e.FittedIn s' := by
  cases e with
  | name x id role =>
    obtain ⟨hne, t, ht, hword⟩ := h
    exact ⟨hne, t, hreads t ht, hword⟩
  | member x v attr =>
    obtain ⟨hfitted, t, ht, hname⟩ := h
    exact ⟨hfitted, t, hreads t ht, hname⟩
  | call x f as =>
    refine ⟨h.1, fun hkeyword => ?_⟩
    obtain ⟨t, ht, hbracket⟩ := h.2 hkeyword
    exact ⟨t, hreads t ht, hbracket⟩
  | constant x v =>
    cases v with
    | bool b =>
      obtain ⟨t, ht, hword⟩ := h
      exact ⟨t, hreads t ht, hword⟩
    | _ => exact trivial
  | _ => exact trivial

theorem Spelled.mono {s s' : Setting} {e : Expr} (h : e.Spelled s)
    (hreads : ∀ t, s.Reads t → s'.Reads t) : e.Spelled s' := by
  induction h with
  | intro first last fitted _ ih =>
    obtain ⟨t, ht, hstart⟩ := first
    obtain ⟨u, hu, hstop⟩ := last
    exact .intro ⟨t, hreads t ht, hstart⟩ ⟨u, hreads u hu, hstop⟩ (fitted.mono hreads) ih

end Expr

/-- A placed expression that stands between tokens of a range. -/
structure Stands (s : Setting) (i j : Nat) (e : Expr) : Prop where
  placed : e.Placed
  spelled : e.Spelled s
  behind : ∃ a t, i ≤ a ∧ WrittenAt s a t ∧ t.start ≤ e.extent.start
  before : ∃ b t, b < j ∧ WrittenAt s b t ∧ e.extent.stop ≤ t.stop

/-- A range of tokens that holds expressions, none in another. -/
structure Held (s : Setting) (i j : Nat) (es : List Expr) : Prop where
  le : i ≤ j
  bound : i < j → j ≤ s.stream.tokens.size
  stands : ∀ e ∈ es, Stands s i j e
  apart : es.Pairwise Expr.Apart

/-- A range that begins with characters, unless it is empty. -/
structure Passed (s : Setting) (i j : Nat) (es : List Expr) : Prop extends Held s i j es where
  starts : i < j → ∃ t, WrittenAt s i t

/-- A range that begins with characters. -/
structure Took (s : Setting) (i j : Nat) (es : List Expr) : Prop extends Passed s i j es where
  lt : i < j

/-- The extent of what stands in a range: from the first token of it to the last. -/
structure Covers (s : Setting) (i j : Nat) (x : Extent) : Prop where
  first : ∃ t, WrittenAt s i t ∧ x.start = t.start
  last : ∃ b t, i ≤ b ∧ b < j ∧ WrittenAt s b t ∧ x.stop = t.stop
  stop_le : ∀ b t, b < j → WrittenAt s b t → t.stop ≤ x.stop

namespace Setting.Sound

variable {s : Setting} (hs : s.Sound)
include hs

theorem start_lt {i : Nat} {t : Token} (ht : WrittenAt s i t) : t.start < t.stop := by
  obtain ⟨lo, hi, hlaid⟩ := hs.laid
  exact (hlaid.written t (Array.mem_toList_iff.mpr (Array.mem_of_getElem? ht.1)) ht.2).start_lt

theorem name_le {i : Nat} {t : Token} (ht : WrittenAt s i t) (hname : t.kind = .name) :
    0 < t.text.utf8ByteSize ∧ t.start + t.text.utf8ByteSize ≤ t.stop := by
  obtain ⟨lo, hi, hlaid⟩ := hs.laid
  exact (hlaid.written t (Array.mem_toList_iff.mpr (Array.mem_of_getElem? ht.1)) ht.2).name hname

theorem lexeme {i : Nat} {t : Token} (ht : WrittenAt s i t) : Laid t.start t.stop t.lexeme := by
  obtain ⟨lo, hi, hlaid⟩ := hs.laid
  exact (hlaid.written t (Array.mem_toList_iff.mpr (Array.mem_of_getElem? ht.1)) ht.2).lexeme

theorem stop_le_start {i j : Nat} {t u : Token} (ht : WrittenAt s i t) (hu : WrittenAt s j u)
    (hij : i < j) : t.stop ≤ u.start := by
  obtain ⟨lo, hi, hlaid⟩ := hs.laid
  obtain ⟨hi', rfl⟩ := Array.getElem?_eq_some_iff.mp ht.1
  obtain ⟨hj', rfl⟩ := Array.getElem?_eq_some_iff.mp hu.1
  have hordered := List.pairwise_iff_getElem.mp hlaid.ordered i j hi' hj' hij
  exact hordered ht.2 hu.2

theorem start_le_start {i j : Nat} {t u : Token} (ht : WrittenAt s i t) (hu : WrittenAt s j u)
    (hij : i ≤ j) : t.start ≤ u.start := by
  rcases Nat.lt_or_eq_of_le hij with hij | rfl
  · have hle := hs.stop_le_start ht hu hij
    have hlt := hs.start_lt ht
    omega
  · obtain rfl := Option.some.inj (ht.1.symm.trans hu.1)
    exact Nat.le_refl _

theorem stop_le_stop {i j : Nat} {t u : Token} (ht : WrittenAt s i t) (hu : WrittenAt s j u)
    (hij : i ≤ j) : t.stop ≤ u.stop := by
  rcases Nat.lt_or_eq_of_le hij with hij | rfl
  · have hle := hs.stop_le_start ht hu hij
    have hlt := hs.start_lt hu
    omega
  · obtain rfl := Option.some.inj (ht.1.symm.trans hu.1)
    exact Nat.le_refl _

end Setting.Sound

variable {s : Setting} {i j k : Nat} {e : Expr} {es fs : List Expr}

namespace Stands

theorem widen (h : Stands s i j e) {i' j' : Nat} (hi : i' ≤ i) (hj : j ≤ j') : Stands s i' j' e := by
  obtain ⟨a, t, ha, ht⟩ := h.behind
  obtain ⟨b, u, hb, hu⟩ := h.before
  exact ⟨h.placed, h.spelled, ⟨a, t, Nat.le_trans hi ha, ht⟩, b, u, Nat.lt_of_lt_of_le hb hj, hu⟩

theorem stop_le (h : Stands s i j e) (hs : s.Sound) {u : Token} (hu : WrittenAt s k u)
    (hk : j ≤ k) : e.extent.stop ≤ u.start := by
  obtain ⟨b, t, hb, ht, hle⟩ := h.before
  have hstop := hs.stop_le_start ht hu (Nat.lt_of_lt_of_le hb hk)
  omega

theorem stop_le_start {f : Expr} (he : Stands s i j e) (hf : Stands s j k f) (hs : s.Sound) :
    e.extent.stop ≤ f.extent.start := by
  obtain ⟨a, t, ha, ht, hle⟩ := hf.behind
  exact Nat.le_trans (he.stop_le hs ht ha) hle

theorem apart {f : Expr} (he : Stands s i j e) (hf : Stands s j k f) (hs : s.Sound) :
    Expr.Apart e f :=
  .inl (he.stop_le_start hf hs)

theorem within {lo hi : Nat} (h : Stands s i j e)
    (hlaid : Lexer.TokensLaid lo hi s.stream.tokens.toList) :
    lo ≤ e.extent.start ∧ e.extent.stop ≤ hi := by
  have hwritten : ∀ {a t}, WrittenAt s a t → Lexer.Written lo hi t := fun ht =>
    hlaid.written _ (Array.mem_toList_iff.mpr (Array.mem_of_getElem? ht.1)) ht.2
  obtain ⟨a, t, _, ht, hstart⟩ := h.behind
  obtain ⟨b, u, _, hu, hstop⟩ := h.before
  exact ⟨Nat.le_trans (hwritten ht).lo_le hstart, Nat.le_trans hstop (hwritten hu).le_hi⟩

theorem inside {x : Extent} (h : Stands s i j e) (hs : s.Sound) (hx : Covers s i j x) :
    x.start ≤ e.extent.start ∧ e.extent.stop ≤ x.stop := by
  obtain ⟨a, t, ha, ht, hstart⟩ := h.behind
  obtain ⟨b, u, hb, hu, hstop⟩ := h.before
  obtain ⟨first, hfirst, heq⟩ := hx.first
  have hle := hs.start_le_start hfirst ht ha
  have hge := hx.stop_le b u hb hu
  omega

end Stands

/-! ## Runs of ranges -/

namespace Held

theorem nil : Held s i i [] := ⟨Nat.le_refl i, fun h => absurd h (Nat.lt_irrefl i), nofun, .nil⟩

theorem token {t : Token} (ht : s.stream.tokens[i]? = some t) : Held s i (i + 1) [] :=
  ⟨Nat.le_succ i, fun _ => (Array.getElem?_eq_some_iff.mp ht).1, nofun, .nil⟩

theorem append (he : Held s i j es) (hf : Held s j k fs) (hs : s.Sound) :
    Held s i k (es ++ fs) := by
  refine ⟨Nat.le_trans he.le hf.le, fun hik => ?_, ?_,
    List.pairwise_append.mpr ⟨he.apart, hf.apart, ?_⟩⟩
  · rcases Nat.lt_or_eq_of_le hf.le with hjk | rfl
    · exact hf.bound hjk
    · exact he.bound hik
  · intro e hmem
    rcases List.mem_append.mp hmem with hmem | hmem
    · exact (he.stands e hmem).widen (Nat.le_refl _) hf.le
    · exact (hf.stands e hmem).widen he.le (Nat.le_refl _)
  · intro e hmem f hmem'
    exact (he.stands e hmem).apart (hf.stands f hmem') hs

theorem subperm (h : Held s i j es) (hsub : fs.Subperm es) : Held s i j fs := by
  obtain ⟨gs, hperm, hsublist⟩ := hsub
  refine ⟨h.le, h.bound, fun e he => h.stands e (hsublist.subset (hperm.mem_iff.mpr he)), ?_⟩
  exact (hperm.pairwise_iff Expr.Apart.symm).mp (h.apart.sublist hsublist)

end Held

namespace Passed

theorem nil : Passed s i i [] := ⟨.nil, fun h => absurd h (Nat.lt_irrefl _)⟩

theorem append (he : Passed s i j es) (hf : Passed s j k fs) (hs : s.Sound) :
    Passed s i k (es ++ fs) := by
  refine ⟨he.toHeld.append hf.toHeld hs, fun hlt => ?_⟩
  rcases Nat.lt_or_eq_of_le he.le with hij | rfl
  · exact he.starts hij
  · exact hf.starts hlt

theorem subperm (h : Passed s i j es) (hsub : fs.Subperm es) : Passed s i j fs :=
  ⟨h.toHeld.subperm hsub, h.starts⟩

theorem took (he : Passed s i j es) (hf : Took s j k fs) (hs : s.Sound) : Took s i k (es ++ fs) :=
  ⟨he.append hf.toPassed hs, Nat.lt_of_le_of_lt he.le hf.lt⟩

end Passed

namespace Took

theorem append (he : Took s i j es) (hf : Passed s j k fs) (hs : s.Sound) :
    Took s i k (es ++ fs) :=
  ⟨he.toPassed.append hf hs, Nat.lt_of_lt_of_le he.lt hf.le⟩

theorem subperm (h : Took s i j es) (hsub : fs.Subperm es) : Took s i j fs :=
  ⟨h.toPassed.subperm hsub, h.lt⟩

theorem bare (h : Took s i j es) : Took s i j [] := h.subperm (List.nil_subperm)

theorem token {t : Token} (ht : WrittenAt s i t) : Took s i (i + 1) [] :=
  ⟨⟨.token ht.1, fun _ => ⟨t, ht⟩⟩, Nat.lt_succ_self i⟩

theorem enclose (h : Took s i j es) (hs : s.Sound) (hx : Covers s i j e.extent)
    (hchildren : Held s i j e.children) (hfitted : e.FittedIn s) : Took s i j [e] := by
  obtain ⟨first, hfirst, hstart⟩ := hx.first
  obtain ⟨b, last, hb, hbj, hlast, hstop⟩ := hx.last
  have hlt := hs.start_lt hlast
  have hle := hs.start_le_start hfirst hlast hb
  have hplaced : e.Placed := by
    refine .intro (by omega) (fun c hc => ?_) hchildren.apart (fun c hc => ?_) hfitted.fitted
    · exact (hchildren.stands c hc).inside hs hx
    · exact (hchildren.stands c hc).placed
  have hspelled : e.Spelled s :=
    .intro ⟨first, .own hfirst, hstart⟩ ⟨last, .own hlast, hstop⟩ hfitted fun c hc =>
      (hchildren.stands c hc).spelled
  have hstands : Stands s i j e :=
    ⟨hplaced, hspelled, ⟨i, first, Nat.le_refl _, hfirst, Nat.le_of_eq hstart.symm⟩,
      b, last, hbj, hlast, Nat.le_of_eq hstop⟩
  have hheld : Held s i j [e] :=
    ⟨h.le, h.bound, List.forall_mem_singleton.mpr hstands, List.pairwise_singleton ..⟩
  exact ⟨⟨hheld, h.starts⟩, h.lt⟩

end Took

/-! ## Extents -/

theorem last_written_of_written {ts : Array Token} {n b : Nat} {t : Token} (hn : n ≤ ts.size)
    (hb : b < n) (ht : ts[b]? = some t) (hwritten : t.isLayout = false) :
    ∃ u, Parser.lastWritten ts n = some u := by
  induction n with
  | zero => cases hb
  | succ n ih =>
    unfold Parser.lastWritten
    rw [Array.getElem?_eq_getElem hn]
    rcases Nat.lt_or_eq_of_le (Nat.le_of_lt_succ hb) with hlt | rfl
    · simp only
      split
      · exact ih (Nat.le_of_lt hn) hlt
      · exact ⟨_, rfl⟩
    · obtain rfl := Option.some.inj ((Array.getElem?_eq_getElem hn).symm.trans ht)
      exact ⟨_, if_neg (Bool.eq_false_iff.mp hwritten)⟩

theorem last_written_eq_some {ts : Array Token} {n : Nat} {t : Token}
    (h : Parser.lastWritten ts n = some t) :
    ∃ b, b < n ∧ ts[b]? = some t ∧ t.isLayout = false ∧
      ∀ c u, b < c → c < n → ts[c]? = some u → u.isLayout = true := by
  fun_induction Parser.lastWritten ts n with
  | case1 => cases h
  | case2 n u hu hlayout ih =>
    obtain ⟨b, hb, ht, hwritten, hafter⟩ := ih h
    refine ⟨b, Nat.lt_succ_of_lt hb, ht, hwritten, fun c v hbc hc hv => ?_⟩
    rcases Nat.lt_or_eq_of_le (Nat.le_of_lt_succ hc) with hc | rfl
    · exact hafter c v hbc hc hv
    · rwa [Option.some.inj (hv.symm.trans hu)]
  | case3 n u hu hlayout =>
    obtain rfl := Option.some.inj h
    refine ⟨n, Nat.lt_succ_self n, hu, Bool.eq_false_iff.mpr hlayout, fun c v hbc hc _ => ?_⟩
    omega
  | case4 => cases h

theorem Took.covers (h : Took s i j es) (hs : s.Sound) :
    ∃ first last, s.stream.tokens[i]? = some first ∧
      Parser.lastWritten s.stream.tokens j = some last ∧
      Covers s i j ⟨first.start, last.stop, first.firstLine, last.lastLine⟩ := by
  obtain ⟨first, hfirst⟩ := h.starts h.lt
  obtain ⟨last, heq⟩ := last_written_of_written (h.bound h.lt) h.lt hfirst.1 hfirst.2
  obtain ⟨b, hb, hlast, hwritten, hafter⟩ := last_written_eq_some heq
  have hbefore : ∀ c t, c < j → WrittenAt s c t → c ≤ b := by
    intro c t hc ht
    refine Nat.le_of_not_lt fun hbc => ?_
    have hlayout := hafter c t hbc hc ht.1
    rw [ht.2] at hlayout
    cases hlayout
  refine ⟨first, last, hfirst.1, heq, ⟨first, hfirst, rfl⟩, ?_, fun c t hc ht => ?_⟩
  · exact ⟨b, last, hbefore i first h.lt hfirst, hb, ⟨hlast, hwritten⟩, rfl⟩
  · exact hs.stop_le_stop ht ⟨hlast, hwritten⟩ (hbefore c t hc ht)

end BacktestAudit.Syntax
