import BacktestAudit.Proofs.Flow.Carried
import BacktestAudit.Proofs.Syntax.Literals

/-!
The amount of a shift and the number of periods that its call is bound with. The amount is read from
the arguments as they are written; at run time values are handed over for them, some unpacked from
sequences and mappings, and bound to the parameters. What is known of the amount is then right,
unless the number of periods may come from a mapping alone.
-/
namespace BacktestAudit.Flow
open BacktestAudit.Syntax BacktestAudit.Source
set_option autoImplicit false

/-! ## Binding of arguments -/

/-- What is handed over for an argument: a value in place or by name, or what a sequence or a mapping
is unpacked to. -/
inductive Passed (V : Type) where
  | inPlace (value : V)
  | items (values : List V)
  | named (name : String) (value : V)
  | entries (pairs : List (String × V))

/-- Whether an expression may have a value, given what literals stand for. -/
def MayBe {V : Type} (lit : Literal → V) (e : Expr) (v : V) : Prop :=
  ∀ l, e.literal? = some l → v = lit l

/-- What may be handed over for an argument: any value that it may have, and anything that is
unpacked. -/
inductive Passes {V : Type} (lit : Literal → V) : Expr → Passed V → Prop
  | inPlace {e : Expr} {v : V} : (∀ x n d, e ≠ .keyword x n d) → (∀ x d, e ≠ .starred x d) →
      MayBe lit e v → Passes lit e (.inPlace v)
  | items {x : Extent} {e : Expr} {vs : List V} : Passes lit (.starred x e) (.items vs)
  | named {x : Extent} {n : String} {e : Expr} {v : V} : MayBe lit e v →
      Passes lit (.keyword x (some n) e) (.named n v)
  | entries {x : Extent} {e : Expr} {pairs : List (String × V)} :
      Passes lit (.keyword x none e) (.entries pairs)

variable {V : Type} {lit : Literal → V} {passed : List (Passed V)} {arguments : List Expr}

def Passed.valuesInPlace : Passed V → List V
  | .inPlace v => [v]
  | .items vs => vs
  | _ => []

def Passed.valuesByName : Passed V → List (String × V)
  | .named n v => [(n, v)]
  | .entries pairs => pairs
  | _ => []

def inPlaceOf (passed : List (Passed V)) : List V := passed.flatMap Passed.valuesInPlace

def byNameOf (passed : List (Passed V)) : List (String × V) := passed.flatMap Passed.valuesByName

/-- The parameters with the values that they get, those in place first. A call is bound if there are
not too many in place, nothing but parameters is named, and no parameter gets two. -/
def bind? (parameters : List String) (passed : List (Passed V)) : Option (List (String × V)) :=
  if (inPlaceOf passed).length ≤ parameters.length ∧
      (∀ b ∈ byNameOf passed, b.1 ∈ parameters) ∧
      ((parameters.zip (inPlaceOf passed) ++ byNameOf passed).map (·.1)).Nodup then
    some (parameters.zip (inPlaceOf passed) ++ byNameOf passed)
  else none

def shiftParameters : List String := ["periods", "freq", "axis", "fill_value"]

/-- The number of periods that a shift is bound with, by default one, if the call is bound. -/
def boundPeriods (lit : Literal → V) (passed : List (Passed V)) : Option V :=
  (bind? shiftParameters passed).map fun bound => (bound.lookup "periods").getD (lit (.int 1))

theorem lookup_of_nodup {bound : List (String × V)} (h : (bound.map (·.1)).Nodup) {n : String} {v : V}
    (hmem : (n, v) ∈ bound) : bound.lookup n = some v := by
  obtain ⟨before, after, rfl⟩ := List.append_of_mem hmem
  rw [List.map_append, List.nodup_append] at h
  refine List.lookup_eq_some_iff.mpr ⟨before, after, rfl, fun p hp => ?_⟩
  have hne := h.2.2 p.1 (List.mem_map_of_mem hp) n (List.mem_cons_self ..)
  exact bne_iff_ne.mpr (Ne.symm hne)

/-- When a call is bound, no parameter got two values, and the number of periods is looked up. -/
theorem bound_periods_eq_some {w : V} (h : boundPeriods lit passed = some w) :
    ((shiftParameters.zip (inPlaceOf passed) ++ byNameOf passed).map (·.1)).Nodup ∧
      w = ((shiftParameters.zip (inPlaceOf passed) ++ byNameOf passed).lookup "periods").getD
        (lit (.int 1)) := by
  obtain ⟨bound, hbound, rfl⟩ := Option.map_eq_some_iff.mp h
  rw [bind?, Option.ite_none_right_eq_some] at hbound
  obtain ⟨⟨_, _, hnodup⟩, heq⟩ := hbound
  obtain rfl := Option.some.inj heq
  exact ⟨hnodup, rfl⟩

theorem bound_periods_of_mem {v w : V} (h : boundPeriods lit passed = some w)
    (hmem : ("periods", v) ∈ shiftParameters.zip (inPlaceOf passed) ++ byNameOf passed) : w = v := by
  obtain ⟨hnodup, rfl⟩ := bound_periods_eq_some h
  rw [lookup_of_nodup hnodup hmem]
  rfl

/-! ## What arguments hand over -/

def nameOf? : Expr → Option String
  | .keyword _ n _ => n
  | _ => none

theorem name_of_eq_some {a : Expr} {n : String} (h : nameOf? a = some n) :
    ∃ x e, a = .keyword x (some n) e := by
  cases a with
  | keyword x m e =>
    obtain rfl : m = some n := h
    exact ⟨x, e, rfl⟩
  | _ => nomatch h

def namesOf (arguments : List Expr) : List String := arguments.filterMap nameOf?

theorem mem_names_of {n : String} :
    n ∈ namesOf arguments ↔ ∃ x e, .keyword x (some n) e ∈ arguments := by
  constructor
  · intro h
    obtain ⟨a, ha, hname⟩ := List.mem_filterMap.mp h
    obtain ⟨x, e, rfl⟩ := name_of_eq_some hname
    exact ⟨x, e, ha⟩
  · rintro ⟨x, e, h⟩
    exact List.mem_filterMap.mpr ⟨_, h, rfl⟩

theorem handed_by_name (h : List.Forall₂ (Passes lit) arguments passed) {x : Extent} {n : String}
    {e : Expr} (hmem : .keyword x (some n) e ∈ arguments) :
    ∃ v, (n, v) ∈ byNameOf passed ∧ MayBe lit e v := by
  induction h with
  | nil => nomatch hmem
  | @cons a p arguments passed hfirst _ ih =>
    rcases List.mem_cons.mp hmem with rfl | hmem
    · cases hfirst with
      | @named _ _ _ v hv => exact ⟨v, List.mem_append_left _ (List.mem_singleton_self _), hv⟩
      | inPlace hkeyword => exact absurd rfl (hkeyword x (some n) e)
    · obtain ⟨v, hv, hmay⟩ := ih hmem
      exact ⟨v, List.mem_append_right _ hv, hmay⟩

theorem handed_first (h : List.Forall₂ (Passes lit) arguments passed) {e : Expr} {l : Literal}
    (hfirst : (Expr.positional arguments).head? = some e) (hl : e.literal? = some l) :
    ∃ vs, inPlaceOf passed = lit l :: vs := by
  induction h with
  | nil => nomatch hfirst
  | @cons a p arguments passed hpasses _ ih =>
    cases hpasses with
    | @inPlace _ v hkeyword _ hv =>
      have hplain : a.isKeyword = false := by
        cases a with
        | keyword x n d => exact absurd rfl (hkeyword x n d)
        | _ => rfl
      rw [Expr.positional, List.filter_cons_of_pos (by rw [hplain]; rfl)] at hfirst
      obtain rfl := Option.some.inj hfirst
      exact ⟨inPlaceOf passed, by rw [← hv l hl]; rfl⟩
    | items =>
      obtain rfl := Option.some.inj hfirst
      nomatch hl
    | named => exact ih hfirst
    | entries => exact ih hfirst

theorem handed_by_name_only (h : List.Forall₂ (Passes lit) arguments passed)
    (hnone : Expr.positional arguments = []) (hclosed : ∀ x e, .keyword x none e ∉ arguments) :
    inPlaceOf passed = [] ∧ (byNameOf passed).map (·.1) = namesOf arguments := by
  induction h with
  | nil => exact ⟨rfl, rfl⟩
  | @cons a p arguments passed hpasses _ ih =>
    have hrest : ∀ x e, .keyword x none e ∉ arguments := fun x e hmem =>
      hclosed x e (List.mem_cons_of_mem a hmem)
    cases hpasses with
    | @inPlace _ v hkeyword =>
      cases a with
      | keyword x n d => exact absurd rfl (hkeyword x n d)
      | _ => nomatch hnone
    | items => nomatch hnone
    | @named x n e v _ =>
      obtain ⟨hplace, hnames⟩ := ih hnone hrest
      exact ⟨hplace, congrArg (n :: ·) hnames⟩
    | @entries x e => exact absurd (List.mem_cons_self ..) (hclosed x e)

/-! ## The amount of a shift -/

/-- The number of periods may come from a mapping alone: nothing is in place, the parameter is not
named, and a mapping is unpacked. -/
def OpenToMapping (arguments : List Expr) : Prop :=
  Expr.positional arguments = [] ∧ "periods" ∉ namesOf arguments ∧
    ∃ x e, .keyword x none e ∈ arguments

/-- A value that is replaced at each argument with a name is in the end that of the last one. -/
theorem last_named {n : String} {next : Option Expr → Expr → Option Expr}
    (hnamed : ∀ found x e, next found (.keyword x (some n) e) = some e)
    (hother : ∀ found a, nameOf? a ≠ some n → next found a = found) (as : List Expr)
    (found : Option Expr) :
    (∃ x e, .keyword x (some n) e ∈ as ∧ as.foldl next found = some e) ∨
      (n ∉ namesOf as ∧ as.foldl next found = found) := by
  induction as generalizing found with
  | nil => exact .inr ⟨List.not_mem_nil, rfl⟩
  | cons a as ih =>
    rw [List.foldl_cons]
    rcases ih (next found a) with ⟨x, e, hmem, hlast⟩ | ⟨hnames, hlast⟩
    · exact .inl ⟨x, e, List.mem_cons_of_mem a hmem, hlast⟩
    · by_cases hname : nameOf? a = some n
      · obtain ⟨x, e, rfl⟩ := name_of_eq_some hname
        exact .inl ⟨x, e, List.mem_cons_self .., hlast.trans (hnamed found x e)⟩
      · refine .inr ⟨fun hmem => ?_, hlast.trans (hother found a hname)⟩
        obtain ⟨x, e, hmem⟩ := mem_names_of.mp hmem
        rcases List.mem_cons.mp hmem with rfl | hmem
        · exact hname rfl
        · exact hnames (mem_names_of.mpr ⟨x, e, hmem⟩)

/-- The amount is read from the last argument that names it, else from the first in place. -/
theorem shift_argument_cases (arguments : List Expr) :
    (∃ x e, .keyword x (some "periods") e ∈ arguments ∧ shiftArgument? arguments = some e) ∨
      ("periods" ∉ namesOf arguments ∧
        shiftArgument? arguments = (Expr.positional arguments).head?) := by
  refine last_named (fun _ _ _ => rfl) (fun found a hname => ?_) arguments _
  split
  · exact absurd rfl hname
  · rfl

theorem literal_of_int {e : Expr} {k : Int} (h : e.literal?.bind Literal.int? = some k) :
    e.literal? = some (.int k) := by
  obtain ⟨l, hl, hint⟩ := Option.bind_eq_some_iff.mp h
  cases l with
  | int n =>
    obtain rfl := Option.some.inj hint
    exact hl
  | _ => nomatch hint

theorem bound_periods_of_known {k : Int} (h : shiftAmount arguments = some k)
    (hclosed : ¬ OpenToMapping arguments) (hpassed : List.Forall₂ (Passes lit) arguments passed)
    {v : V} (hbound : boundPeriods lit passed = some v) : v = lit (.int k) := by
  unfold shiftAmount at h
  rcases shift_argument_cases arguments with ⟨x, e, hmem, hargument⟩ | ⟨hnames, hargument⟩
  · rw [hargument] at h
    obtain ⟨w, hw, hmay⟩ := handed_by_name hpassed hmem
    rw [← hmay _ (literal_of_int h)]
    exact bound_periods_of_mem hbound (List.mem_append_right _ hw)
  · rw [hargument] at h
    cases hfirst : (Expr.positional arguments).head? with
    | some e =>
      rw [hfirst] at h
      obtain ⟨vs, hvs⟩ := handed_first hpassed hfirst (literal_of_int h)
      refine bound_periods_of_mem hbound (List.mem_append_left _ ?_)
      rw [hvs]
      exact List.mem_cons_self ..
    | none =>
      -- Nothing is handed over for the parameter, so it is one by default.
      rw [hfirst] at h
      obtain rfl := Option.some.inj h
      have hnone := List.head?_eq_none_iff.mp hfirst
      have hmappings : ∀ x e, .keyword x none e ∉ arguments := fun x e hmem =>
        hclosed ⟨hnone, hnames, x, e, hmem⟩
      obtain ⟨hplace, hbyname⟩ := handed_by_name_only hpassed hnone hmappings
      obtain ⟨_, rfl⟩ := bound_periods_eq_some hbound
      have hlookup : (byNameOf passed).lookup "periods" = none := by
        refine List.lookup_eq_none_iff.mpr fun p hp => bne_iff_ne.mpr fun heq => hnames ?_
        rw [← hbyname, heq]
        exact List.mem_map_of_mem hp
      rw [hplace, List.zip_nil_right, List.nil_append, hlookup]
      rfl

/-! ## Mappings that give the number of periods -/

/-- What an argument hands over when nothing is unpacked from it. -/
def plainly (lit : Literal → V) (v : V) : Expr → Passed V
  | .keyword _ (some n) e => .named n ((e.literal?.map lit).getD v)
  | .keyword _ none _ => .entries []
  | .starred .. => .items []
  | e => .inPlace ((e.literal?.map lit).getD v)

theorem passes_plainly (lit : Literal → V) (v : V) (e : Expr) : Passes lit e (plainly lit v e) := by
  have hmay : ∀ d : Expr, MayBe lit d ((d.literal?.map lit).getD v) := by
    intro d l hl
    rw [hl]
    rfl
  cases e with
  | keyword x n d =>
    cases n with
    | none => exact .entries
    | some n => exact .named (hmay d)
  | starred x d => exact .items
  | _ => exact .inPlace nofun nofun (hmay _)

theorem names_handed_plainly (lit : Literal → V) (v : V) (es : List Expr) :
    (byNameOf (es.map (plainly lit v))).map (·.1) = namesOf es := by
  induction es with
  | nil => rfl
  | cons e es ih =>
    have hsplit : (byNameOf ((e :: es).map (plainly lit v))).map (·.1) =
        (plainly lit v e).valuesByName.map (·.1) ++
          (byNameOf (es.map (plainly lit v))).map (·.1) := List.map_append
    rw [hsplit, ih]
    cases e with
    | keyword x n d => cases n <;> rfl
    | _ => rfl

theorem in_place_handed_plainly (lit : Literal → V) (v : V) {es : List Expr}
    (h : ∀ e ∈ es, e.isKeyword = true) : inPlaceOf (es.map (plainly lit v)) = [] := by
  refine List.flatMap_eq_nil_iff.mpr fun p hp => ?_
  obtain ⟨e, he, rfl⟩ := List.mem_map.mp hp
  cases e with
  | keyword x n d => cases n <;> rfl
  | _ => nomatch h _ he

/-- A call with nothing in place and each of its parameters named once is bound as they say. -/
theorem bound_by_name {v : V} (hplace : inPlaceOf passed = [])
    (hnodup : ((byNameOf passed).map (·.1)).Nodup)
    (hknown : ∀ n ∈ (byNameOf passed).map (·.1), n ∈ shiftParameters)
    (hmem : ("periods", v) ∈ byNameOf passed) : boundPeriods lit passed = some v := by
  have hbound : bind? shiftParameters passed = some (byNameOf passed) := by
    rw [bind?, hplace, List.zip_nil_right, List.nil_append]
    exact if_pos ⟨Nat.zero_le _, fun b hb => hknown b.1 (List.mem_map_of_mem hb), hnodup⟩
  rw [boundPeriods, hbound, Option.map_some, lookup_of_nodup hnodup hmem]
  rfl

theorem bound_of_open (hopen : OpenToMapping arguments) (hnodup : (namesOf arguments).Nodup)
    (hknown : ∀ n ∈ namesOf arguments, n ∈ shiftParameters) (lit : Literal → V) (v : V) :
    ∃ passed, List.Forall₂ (Passes lit) arguments passed ∧ boundPeriods lit passed = some v := by
  obtain ⟨hnone, hperiods, x, e, hmem⟩ := hopen
  obtain ⟨before, after, rfl⟩ := List.append_of_mem hmem
  have hkeywords : ∀ d ∈ before ++ .keyword x none e :: after, d.isKeyword = true := by
    intro d hd
    simpa using List.filter_eq_nil_iff.mp hnone d hd
  have hnames : namesOf (before ++ .keyword x none e :: after) = namesOf before ++ namesOf after := by
    rw [namesOf, List.filterMap_append, List.filterMap_cons_none rfl]
    rfl
  rw [hnames] at hperiods hnodup hknown
  -- The mapping holds the number of periods, and nothing else is unpacked.
  let passed := before.map (plainly lit v) ++
    .entries [("periods", v)] :: after.map (plainly lit v)
  have hplain : ∀ es : List Expr, List.Forall₂ (Passes lit) es (es.map (plainly lit v)) := fun es =>
    List.forall₂_map_right_iff.mpr (List.forall₂_same.mpr fun d _ => passes_plainly lit v d)
  have hplace : inPlaceOf passed = [] := by
    obtain ⟨hbefore, hafter⟩ := List.forall_mem_append.mp hkeywords
    have hafter := (List.forall_mem_cons.mp hafter).2
    rw [inPlaceOf, List.flatMap_append, List.flatMap_cons, ← inPlaceOf, ← inPlaceOf,
      in_place_handed_plainly lit v hbefore, in_place_handed_plainly lit v hafter]
    rfl
  have hbyname : (byNameOf passed).map (·.1) = namesOf before ++ "periods" :: namesOf after := by
    rw [byNameOf, List.flatMap_append, List.flatMap_cons, ← byNameOf, ← byNameOf, List.map_append,
      List.map_append, names_handed_plainly, names_handed_plainly]
    rfl
  refine ⟨passed, List.rel_append (hplain before) (.cons .entries (hplain after)),
    bound_by_name hplace ?_ ?_ ?_⟩
  · rw [hbyname]
    exact List.perm_middle.nodup_iff.mpr (List.nodup_cons.mpr ⟨hperiods, hnodup⟩)
  · rw [hbyname]
    intro n hn
    rcases List.mem_cons.mp (List.perm_middle.mem_iff.mp hn) with rfl | hn
    · decide
    · exact hknown n hn
  · refine List.mem_flatMap.mpr ⟨.entries [("periods", v)], ?_, List.mem_singleton_self _⟩
    exact List.mem_append_right _ (List.mem_cons_self ..)

/-! ## Reads of what is shifted -/

/-- What is read under an unknown shift has an unknown lag, unless it lies aside. -/
theorem read_under_unknown {e : Expr} {m : Mark}
    (haside : ∀ shift, m.bearing = .settled shift → LiesAside e m.extent)
    (h : ¬ LiesAside e m.extent) (p : Progress) :
    (m.read p none).shift = none ∧ (m.read p none).lag = Lag.unknown := by
  obtain ⟨column, extent, bearing⟩ := m
  cases bearing with
  | carried lead => exact ⟨rfl, rfl⟩
  | settled shift => exact absurd (haside shift rfl) h

/-- A shift applies what it reads from its arguments to all reads of its receiver but those that lie
aside. An amount that is known is the number of periods that the call is bound with, whatever is
handed over for its arguments; only where that number may come from a mapping alone, it is taken for
one, and may be any other. Under an amount that is not known nothing is known of the reads. -/
theorem shift_amount_is_bound (arguments : List Expr) :
    (∀ k, shiftAmount arguments = some k → ¬ OpenToMapping arguments →
      ∀ {V : Type} (lit : Literal → V) (passed : List (Passed V)),
        List.Forall₂ (Passes lit) arguments passed →
        boundPeriods lit passed = none ∨ boundPeriods lit passed = some (lit (.int k))) ∧
    (OpenToMapping arguments → shiftAmount arguments = some 1 ∧
      ((namesOf arguments).Nodup → (∀ n ∈ namesOf arguments, n ∈ shiftParameters) →
        ∀ {V : Type} (lit : Literal → V) (v : V), ∃ passed,
          List.Forall₂ (Passes lit) arguments passed ∧ boundPeriods lit passed = some v)) ∧
    ∀ (imported : List String) (e : Expr), ∃ marks : List Mark,
      (∀ (p : Progress) (s : Shift) (x y : Extent),
        (scan imported s (.call x (.member y e "shift") arguments)).reads.map p.resolve =
          marks.map (·.read p (addShift s (shiftAmount arguments))) ++
            (scanAll imported (some 0) arguments).reads.map p.resolve) ∧
      (∀ m ∈ marks, ∀ shift, m.bearing = .settled shift → LiesAside e m.extent) ∧
      (shiftAmount arguments = none → ∀ (p : Progress) (s : Shift), ∀ m ∈ marks,
        ¬ LiesAside e m.extent →
          (m.read p (addShift s (shiftAmount arguments))).shift = none ∧
            (m.read p (addShift s (shiftAmount arguments))).lag = Lag.unknown) := by
  refine ⟨?_, ?_, ?_⟩
  · intro k hknown hclosed V lit passed hpassed
    cases hbound : boundPeriods lit passed with
    | none => exact .inl rfl
    | some v => exact .inr (congrArg some (bound_periods_of_known hknown hclosed hpassed hbound))
  · intro hopen
    have hargument : shiftArgument? arguments = none := by
      rcases shift_argument_cases arguments with ⟨x, e, hmem, _⟩ | ⟨_, hargument⟩
      · exact absurd (mem_names_of.mpr ⟨x, e, hmem⟩) hopen.2.1
      · rw [hargument, hopen.1]
        rfl
    refine ⟨by rw [shiftAmount, hargument], fun hnodup hknown V lit v => ?_⟩
    exact bound_of_open hopen hnodup hknown lit v
  · intro imported e
    have hbears : Bears (LiesAside e) fun s => scan imported s e := scan_bears e
    obtain ⟨marks, haside, hreads⟩ := hbears.reads
    refine ⟨marks, fun p s x y => ?_, haside, fun hunknown p s m hm hreached => ?_⟩
    · rw [scan_shift_reads, List.map_append, hreads, List.map_map]
      rfl
    · rw [hunknown, add_shift_none]
      exact read_under_unknown (haside m hm) hreached p

/-- A number of periods in place, and more from a sequence. -/
def twoAndMore : List Expr :=
  [.constant ⟨8, 9, 1, 1⟩ (.int 2), .starred ⟨11, 16, 1, 1⟩ (.name ⟨12, 16, 1, 1⟩ "rest" .read)]

theorem two_and_more_is_bound :
    shiftAmount twoAndMore = some 2 ∧
      List.Forall₂ (Passes id) twoAndMore [.inPlace (.int 2), .items [.str "D"]] ∧
      boundPeriods id [.inPlace (.int 2), .items [.str "D"]] = some (Literal.int 2) := by
  have hamount : shiftAmount twoAndMore = some 2 := rfl
  have hclosed : ¬ OpenToMapping twoAndMore := fun h => nomatch h.1
  have hpassed : List.Forall₂ (Passes id) twoAndMore [.inPlace (.int 2), .items [.str "D"]] :=
    .cons (.inPlace nofun nofun fun _ hl => Option.some.inj hl) (.cons .items .nil)
  refine ⟨hamount, hpassed, ?_⟩
  rcases (shift_amount_is_bound twoAndMore).1 2 hamount hclosed id _ hpassed with hnone | hbound
  · have hsome : (boundPeriods id [.inPlace (.int 2), .items [.str "D"]]).isSome = true := by decide
    rw [hnone] at hsome
    nomatch hsome
  · exact hbound

/-- All arguments of a shift come from a mapping. -/
def unpackedShiftText : String := "y = x.shift(**opts)\n"

/-- A shift of which all arguments come from a mapping. -/
def isUnpackedShift : Expr → Bool
  | .call _ (.member _ _ "shift") [.keyword _ none _] => true
  | _ => false

/-- The shift is taken for one by a single period; the mapping may hold another number. -/
theorem unpacked_shift_taken_for_one :
    ∃ unit, SourceUnit.parse unpackedShiftText "unpacked" = .ok unit ∧
      ((Graph.ofUnit unit).assignments[0]?.map fun a => a.reads.map fun r => (r.column.name, r.shift)) =
        some [("x", some 1), ("opts", some 0)] ∧
      ∃ x y e arguments, .call x (.member y e "shift") arguments ∈
          Stmt.expressionsOfAll unit.statements ∧
        shiftAmount arguments = some 1 ∧
        ∃ passed, List.Forall₂ (Passes id) arguments passed ∧
          boundPeriods id passed = some (.int 2) := by
  have hfacts : SourceUnit.parsesTo unpackedShiftText "unpacked" (fun unit =>
      decide (((Graph.ofUnit unit).assignments[0]?.map fun a =>
        a.reads.map fun r => (r.column.name, r.shift)) =
          some [("x", some 1), ("opts", some 0)]) &&
      (Stmt.expressionsOfAll unit.statements).any isUnpackedShift) = true := by
    decide +kernel
  obtain ⟨unit, hparse, hunit⟩ := SourceUnit.parses_to_iff.mp hfacts
  obtain ⟨hreads, hunit⟩ := Bool.and_eq_true_iff.mp hunit
  obtain ⟨e, he, hcall⟩ := List.any_eq_true.mp hunit
  refine ⟨unit, hparse, of_decide_eq_true hreads, ?_⟩
  unfold isUnpackedShift at hcall
  split at hcall
  · next x y value z options =>
    have hpassed : List.Forall₂ (Passes id) [.keyword z none options]
        [.entries [("periods", Literal.int 2)]] := .cons .entries .nil
    have hbound : boundPeriods id [.entries [("periods", Literal.int 2)]] = some (.int 2) :=
      bound_by_name rfl (by decide) (by decide) (List.mem_singleton_self _)
    exact ⟨x, y, value, _, he, rfl, _, hpassed, hbound⟩
  · cases hcall

end BacktestAudit.Flow
