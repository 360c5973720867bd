import BacktestAudit.Proofs.Settings.Layering

/-!
What loading does with layers that no settings can be made of. Most faults are told as errors of the
configuration; integers that are too long or too large, an infinite number of trials and bytes that
are no text end it otherwise. A section that is no table is passed over.
-/
namespace BacktestAudit
open BacktestAudit.Data BacktestAudit.Data.Outcome BacktestAudit.Text BacktestAudit.Decimal
set_option autoImplicit false

/-! ## Faults that are told -/

/-- A fault that is told as an error of the configuration. -/
def SettingsFault.IsTold (e : SettingsFault) : Prop := e ≠ .outOfRange ∧ e ≠ .unwritable

namespace Settings

theorem failure_of_eq_accident {e : SettingsFault} :
    (∃ a, failureOf e = .accident a) ↔ e = .outOfRange ∨ e = .unwritable := by
  cases e <;> simp [failureOf]

theorem number_told (v : Value) : FailsOnly SettingsFault.IsTold (number v) := by
  unfold number
  split
  · exact .ok
  · exact .error ⟨nofun, nofun⟩

theorem checked_number_told (v : Value) (condition : Number → Bool) (reason : String) :
    FailsOnly SettingsFault.IsTold (checkedNumber v condition reason) := by
  refine (number_told v).bind fun n _ => ?_
  split
  · exact .ok
  · exact .error ⟨nofun, nofun⟩

theorem checked_optional_told (v : Value) (condition : Number → Bool) (reason : String) :
    FailsOnly SettingsFault.IsTold (StatisticsSettings.checkedOptional v condition reason) := by
  unfold StatisticsSettings.checkedOptional
  split
  · exact .ok
  · exact (checked_number_told v condition reason).map

end Settings

/-! ## Lists of texts -/

namespace Settings

theorem check_fields_eq_ok {section_ : String} {fields : List String} {entries : Entries Value} :
    checkFields section_ fields entries = .ok () ↔ ∀ e ∈ entries, e.1 ∈ fields := by
  unfold checkFields
  cases hfind : entries.find? fun e => e.1 ∉ fields with
  | none =>
    refine iff_of_true rfl fun e he => ?_
    simpa using List.find?_eq_none.mp hfind e he
  | some e =>
    refine iff_of_false nofun fun h => ?_
    have htest := List.find?_some hfind
    simp [h e (List.mem_of_find?_eq_some hfind)] at htest

theorem check_fields_told (section_ : String) (fields : List String) (entries : Entries Value) :
    FailsOnly SettingsFault.IsTold (checkFields section_ fields entries) := by
  unfold checkFields
  split
  · exact .error ⟨nofun, nofun⟩
  · exact .ok

theorem texts_within (v : Value) : FailsOnly (· ≠ .outOfRange) (texts v) := by
  unfold texts
  split
  · exact .ok
  · split
    · exact .ok
    · exact .error nofun
  · exact .ok
  · exact .error nofun

theorem texts_unwritable_iff {v : Value} :
    texts v = .error .unwritable ↔ ∃ items, v = .list items ∧ Value.areWritable items = false := by
  cases v with
  | list items =>
    unfold texts
    cases hwritable : Value.areWritable items <;> simp [hwritable]
  | _ => exact ⟨nofun, fun ⟨_, h, _⟩ => nomatch h⟩

/-- Of some fields that list texts, the first that cannot be read lists an integer with more digits
than are written. -/
def ListsUnwritable (entries : Entries Value) (fields : List String) : Prop :=
  ∃ before name after items, fields = before ++ name :: after ∧
    (∀ other ∈ before, ∀ v, Entries.get? entries other = some v → ∃ ts, texts v = .ok ts) ∧
    Entries.get? entries name = some (.list items) ∧ Value.areWritable items = false

end Settings

namespace PatternSettings
open Settings

theorem texts_or_eq_error {entries : Entries Value} {name : String} {default : List String}
    {e : SettingsFault} :
    textsOr entries name default = .error e ↔
      ∃ v, Entries.get? entries name = some v ∧ texts v = .error e := by
  unfold textsOr
  cases Entries.get? entries name with
  | none => exact ⟨nofun, fun ⟨_, h, _⟩ => nomatch h⟩
  | some v => simp

theorem texts_or_succeeds_iff {entries : Entries Value} {name : String} {default : List String} :
    (∃ ts, textsOr entries name default = .ok ts) ↔
      ∀ v, Entries.get? entries name = some v → ∃ ts, texts v = .ok ts := by
  unfold textsOr
  cases Entries.get? entries name with
  | none => exact ⟨fun _ => nofun, fun _ => ⟨default, rfl⟩⟩
  | some v => simp

theorem lists_unwritable_iff {entries : Entries Value} {fields : List String} :
    ListsUnwritable entries fields ↔
      FailsFirst (fun name => textsOr entries name []) fields .unwritable := by
  unfold ListsUnwritable FailsFirst
  simp only [texts_or_succeeds_iff, texts_or_eq_error, texts_unwritable_iff]
  constructor
  · rintro ⟨before, name, after, items, hfields, hbefore, hget, hwritable⟩
    exact ⟨before, name, after, hfields, hbefore, _, hget, items, rfl, hwritable⟩
  · rintro ⟨before, name, after, hfields, hbefore, _, hget, items, rfl, hwritable⟩
    exact ⟨before, name, after, items, hfields, hbefore, hget, hwritable⟩

/-- Patterns end otherwise than in an error when they list an integer that is not written, and nothing
before it is amiss. -/
theorem of_entries_unwritable_iff {entries : Entries Value} :
    ofEntries entries = .error .unwritable ↔
      (∀ e ∈ entries, e.1 ∈ fields) ∧ ListsUnwritable entries fields := by
  have herror (name : String) (default : List String) :
      textsOr entries name default = .error .unwritable ↔
        textsOr entries name [] = .error .unwritable := by
    rw [texts_or_eq_error, texts_or_eq_error]
  have hok (name : String) (default : List String) :
      (∃ ts, textsOr entries name default = .ok ts) ↔ ∃ ts, textsOr entries name [] = .ok ts := by
    rw [texts_or_succeeds_iff, texts_or_succeeds_iff]
  have hfields : ∀ e : Unit, checkFields sectionName fields entries = .ok e ↔
      ∀ e ∈ entries, e.1 ∈ fields := fun _ => check_fields_eq_ok
  have hknown : checkFields sectionName fields entries ≠ .error .unwritable := fun h =>
    (check_fields_told _ _ _ _ h).2 rfl
  unfold ofEntries
  rw [bind_eq_error_iff fun _ => bind_eq_error_iff fun position => bind_eq_error_iff fun signal =>
    bind_eq_error_iff fun _ => bind_eq_error_iff fun _ => (iff_false _).mpr (by
      intro h
      dsimp only at h
      split at h
      · cases h
      · split at h <;> cases h)]
  simp only [hknown, hfields, herror, hok, false_or, exists_const, lists_unwritable_iff]
  refine and_congr_right fun _ => ?_
  simp only [fields, fails_first_cons, not_fails_first_nil]

theorem texts_or_within (entries : Entries Value) (name : String) (default : List String) :
    FailsOnly (· ≠ .outOfRange) (textsOr entries name default) := by
  unfold textsOr
  split
  · exact texts_within _
  · exact .ok

theorem of_entries_within (entries : Entries Value) :
    FailsOnly (· ≠ .outOfRange) (ofEntries entries) := by
  unfold ofEntries
  refine FailsOnly.bind (fun e h => (check_fields_told _ _ _ e h).1) fun _ _ => ?_
  refine (texts_or_within _ _ _).bind fun position _ => ?_
  refine (texts_or_within _ _ _).bind fun signal _ => ?_
  refine (texts_or_within _ _ _).bind fun _ _ => (texts_or_within _ _ _).bind fun _ _ => ?_
  dsimp only
  split
  · exact .error nofun
  · split
    · exact .error nofun
    · exact .ok

end PatternSettings

/-! ## Brackets -/

namespace StatisticsSettings
open Settings

theorem bracket_key_beyond_iff {k : Value} :
    bracketKey k = .error .outOfRange ↔
      ∃ x negative, k = .float x ∧ Binary64.ofFloat x = .infinite negative := by
  cases k with
  | float x =>
    unfold bracketKey
    simp only [Value.number?]
    cases hx : Binary64.ofFloat x <;> simp [hx]
  | text s =>
    unfold bracketKey
    dsimp only
    cases readInt? s <;> simp
  | _ => simp [bracketKey, Value.number?, Number.toInt?]

theorem bracket_value_beyond_iff {v : Value} :
    bracketValue v = .error .outOfRange ↔ ∃ n, v = .int n ∧ Binary64.intFits n = false := by
  cases v with
  | int n =>
    unfold bracketValue
    simp only [Value.number?, Number.toFloat?]
    cases hfits : Binary64.intFits n <;> simp [hfits]
  | text s =>
    unfold bracketValue
    dsimp only
    cases readFloat? s <;> simp
  | _ => simp [bracketValue, Value.number?, Number.toFloat?]

/-- Of the brackets that a value maps, the first that cannot be read is for an infinite number of
trials, or its threshold is an integer beyond the range of doubles. -/
def MapsBeyond (v : Value) : Prop :=
  ∃ pairs before k x after, mapping? v = some pairs ∧ pairs = before ++ (k, x) :: after ∧
    (∀ e ∈ before, (∃ n, bracketKey e.1 = .ok n) ∧ ∃ y, bracketValue e.2 = .ok y) ∧
    ((∃ y negative, k = .float y ∧ Binary64.ofFloat y = .infinite negative) ∨
      (∃ n, bracketKey k = .ok n) ∧ ∃ n, x = .int n ∧ Binary64.intFits n = false)

def bracketOf (e : Value × Value) : Except SettingsFault (Int × Float) := do
  return (← bracketKey e.1, ← bracketValue e.2)

theorem bracket_succeeds_iff {e : Value × Value} :
    (∃ b, bracketOf e = .ok b) ↔
      (∃ n, bracketKey e.1 = .ok n) ∧ ∃ y, bracketValue e.2 = .ok y := by
  unfold bracketOf
  simp only [bind_eq_ok]
  constructor
  · rintro ⟨_, n, hn, y, hy, _⟩
    exact ⟨⟨n, hn⟩, y, hy⟩
  · rintro ⟨⟨n, hn⟩, y, hy⟩
    exact ⟨(n, y), n, hn, y, hy, rfl⟩

theorem bracket_beyond_iff {k x : Value} :
    bracketOf (k, x) = .error .outOfRange ↔
      (∃ y negative, k = .float y ∧ Binary64.ofFloat y = .infinite negative) ∨
        (∃ n, bracketKey k = .ok n) ∧ ∃ n, x = .int n ∧ Binary64.intFits n = false := by
  unfold bracketOf
  rw [bind_eq_error_iff fun _ => bind_eq_error_iff fun _ => (iff_false _).mpr (by nofun), and_false,
    or_false, bracket_key_beyond_iff, bracket_value_beyond_iff]

theorem brackets_beyond_iff {v : Value} : brackets v = .error .outOfRange ↔ MapsBeyond v := by
  unfold brackets MapsBeyond
  cases mapping? v with
  | none => exact iff_of_false nofun fun ⟨_, _, _, _, _, h, _⟩ => nomatch h
  | some pairs =>
    have hread : pairs.mapM bracketOf = .error .outOfRange ↔
        ∃ before k x after, pairs = before ++ (k, x) :: after ∧
          (∀ e ∈ before, (∃ n, bracketKey e.1 = .ok n) ∧ ∃ y, bracketValue e.2 = .ok y) ∧
          ((∃ y negative, k = .float y ∧ Binary64.ofFloat y = .infinite negative) ∨
            (∃ n, bracketKey k = .ok n) ∧ ∃ n, x = .int n ∧ Binary64.intFits n = false) := by
      rw [map_m_eq_error]
      simp only [← bracket_succeeds_iff, ← bracket_beyond_iff]
      constructor
      · rintro ⟨before, ⟨k, x⟩, after, h⟩
        exact ⟨before, k, x, after, h⟩
      · rintro ⟨before, k, x, after, h⟩
        exact ⟨before, (k, x), after, h⟩
    simp only [pure_bind]
    change (pairs.mapM bracketOf >>= _) = _ ↔ _
    rw [bind_eq_error_iff fun _ => (iff_false _).mpr (by
      intro h
      split at h
      · cases h
      · split at h <;> cases h), and_false, or_false, hread]
    simp

theorem bracket_key_written (k : Value) : FailsOnly (· ≠ .unwritable) (bracketKey k) := by
  unfold bracketKey
  split
  · split
    · exact .ok
    · exact .error nofun
  · split
    · split
      · exact .ok
      · exact .error nofun
      · exact .error nofun
    · split
      · exact .ok
      · exact .error nofun
    · exact .error nofun

theorem bracket_value_written (v : Value) : FailsOnly (· ≠ .unwritable) (bracketValue v) := by
  unfold bracketValue
  split
  · split
    · exact .ok
    · exact .error nofun
  · split
    · split
      · exact .ok
      · exact .error nofun
    · exact .error nofun

theorem brackets_written (v : Value) : FailsOnly (· ≠ .unwritable) (brackets v) := by
  unfold brackets
  cases mapping? v with
  | none => exact .error nofun
  | some pairs =>
    simp only [pure_bind]
    refine FailsOnly.bind (.mapM fun e _ => ?_) fun numbers _ => ?_
    · exact (bracket_key_written _).bind fun _ _ => (bracket_value_written _).bind fun _ _ => .ok
    · split
      · exact .error nofun
      · split
        · exact .error nofun
        · exact .ok

theorem brackets_of_written (entries : Entries Value) :
    FailsOnly (· ≠ .unwritable) (bracketsOf entries) := by
  unfold bracketsOf
  split
  · exact brackets_written _
  · exact .ok

theorem of_entries_cases {entries : Entries Value} {e : SettingsFault}
    (h : ofEntries entries = .error e) :
    e.IsTold ∨ (∀ e ∈ entries, e.1 ∈ fields) ∧ bracketsOf entries = .error e := by
  unfold ofEntries at h
  rcases bind_eq_error.mp h with h | ⟨_, hfields, h⟩
  · exact .inl (check_fields_told _ _ _ e h)
  · rcases bind_eq_error.mp h with h | ⟨_, _, h⟩
    · exact .inr ⟨check_fields_eq_ok.mp hfields, h⟩
    · left
      refine (checked_number_told _ _ _).bind (fun _ _ => ?_) e h
      refine (checked_number_told _ _ _).bind fun _ _ => ?_
      refine (checked_optional_told _ _ _).bind fun _ _ => ?_
      refine (checked_number_told _ _ _).bind fun _ _ => ?_
      refine (checked_number_told _ _ _).bind fun _ _ => ?_
      refine (checked_number_told _ _ _).bind fun _ _ => ?_
      exact (checked_number_told _ _ _).bind fun _ _ => .ok

theorem of_entries_written (entries : Entries Value) :
    FailsOnly (· ≠ .unwritable) (ofEntries entries) := by
  intro e h
  rcases of_entries_cases h with htold | ⟨_, hbrackets⟩
  · exact htold.2
  · exact brackets_of_written entries e hbrackets

theorem of_entries_beyond_iff {entries : Entries Value} :
    ofEntries entries = .error .outOfRange ↔ (∀ e ∈ entries, e.1 ∈ fields) ∧
      ∃ v, Entries.get? entries "tstat_thresholds" = some v ∧ MapsBeyond v := by
  have hbrackets : bracketsOf entries = .error .outOfRange ↔
      ∃ v, Entries.get? entries "tstat_thresholds" = some v ∧ MapsBeyond v := by
    unfold bracketsOf
    cases Entries.get? entries "tstat_thresholds" with
    | none => exact iff_of_false nofun fun ⟨_, h, _⟩ => nomatch h
    | some v => simp [brackets_beyond_iff]
  rw [← hbrackets]
  constructor
  · intro h
    exact (of_entries_cases h).resolve_left fun htold => htold.1 rfl
  · rintro ⟨hfields, hbeyond⟩
    refine bind_eq_error.mpr (.inr ⟨(), check_fields_eq_ok.mpr hfields, ?_⟩)
    exact bind_eq_error.mpr (.inl hbeyond)

end StatisticsSettings

/-! ## Merged settings -/

namespace Settings

/-- What a section is made of: a whole one that is asked for, or the table that is given. What is
given in its place and is no table is passed over, as if nothing were given. -/
inductive SectionFrom {α : Type} (whole : Option α) (given : Option Value)
    (make : Entries Value → Except SettingsFault α) (standard : α) : α → Prop
  | whole {x : α} (h : whole = some x) : SectionFrom whole given make standard x
  | table {x : α} {es : Entries Value} (h : whole = none) (hgiven : given = some (.table es))
      (hmake : make es = .ok x) : SectionFrom whole given make standard x
  | passedOver (h : whole = none) (hgiven : ∀ es, given ≠ some (.table es)) :
      SectionFrom whole given make standard standard

section Sections
variable {α : Type} {whole : Option α} {entries : Entries Value} {name : String}
  {make : Entries Value → Except SettingsFault α} {standard : α}

theorem section_of_eq_ok {x : α} :
    sectionOf whole entries name make standard = .ok x ↔
      SectionFrom whole (Entries.get? entries name) make standard x := by
  unfold sectionOf
  cases whole with
  | some y =>
    refine ⟨fun h => .whole (congrArg some (Except.ok.inj h)), fun h => ?_⟩
    cases h with
    | whole h => exact congrArg Except.ok (Option.some.inj h)
    | table h => nomatch h
    | passedOver h => nomatch h
  | none =>
    dsimp only
    split
    · next es hgiven =>
      refine ⟨fun h => .table rfl hgiven h, fun h => ?_⟩
      cases h with
      | whole h => nomatch h
      | table _ hsame hmake =>
        rw [hgiven] at hsame
        cases hsame
        exact hmake
      | passedOver _ hother => exact absurd hgiven (hother es)
    · next hother =>
      refine ⟨fun h => Except.ok.inj h ▸ .passedOver rfl hother, fun h => ?_⟩
      cases h with
      | whole h => nomatch h
      | table _ hgiven => exact absurd hgiven (hother _)
      | passedOver => rfl

theorem section_of_eq_error {e : SettingsFault} :
    sectionOf whole entries name make standard = .error e ↔
      whole = none ∧ ∃ es, Entries.get? entries name = some (.table es) ∧ make es = .error e := by
  unfold sectionOf
  cases whole with
  | some y => exact ⟨nofun, fun h => nomatch h.1⟩
  | none =>
    dsimp only
    split
    · next es hgiven => simp [hgiven]
    · next hother =>
      refine ⟨nofun, fun ⟨_, es, hgiven, _⟩ => absurd hgiven (hother es)⟩

end Sections

theorem top_within (entries : Entries Value) (patterns : PatternSettings)
    (statistics : StatisticsSettings) :
    FailsOnly (· ≠ .outOfRange) (ofEntries entries patterns statistics) := by
  rw [of_entries_eq]
  refine FailsOnly.bind (fun e h => (check_fields_told _ _ _ e h).1) fun _ _ => ?_
  refine (PatternSettings.texts_or_within _ _ _).bind fun _ _ => ?_
  exact FailsOnly.bind (fun e h => (checked_optional_told _ _ _ e h).1) fun _ _ => .ok

/-- The settings themselves end otherwise than in an error when a disabled rule is not written. -/
theorem top_unwritable_iff {entries : Entries Value} {patterns : PatternSettings}
    {statistics : StatisticsSettings} :
    ofEntries entries patterns statistics = .error .unwritable ↔ (∀ e ∈ entries, e.1 ∈ fields) ∧
      ∃ items, Entries.get? entries "disabled_rules" = some (.list items) ∧
        Value.areWritable items = false := by
  have hknown : checkFields sectionName fields entries ≠ .error .unwritable := fun h =>
    (check_fields_told _ _ _ _ h).2 rfl
  have hfields : ∀ e : Unit, checkFields sectionName fields entries = .ok e ↔
      ∀ e ∈ entries, e.1 ∈ fields := fun _ => check_fields_eq_ok
  rw [of_entries_eq, bind_eq_error_iff fun _ => bind_eq_error_iff fun _ => (iff_false _).mpr (by
    intro h
    rcases bind_eq_error.mp h with h | ⟨_, _, h⟩
    · exact (checked_optional_told _ _ _ _ h).2 rfl
    · nomatch h)]
  simp only [hknown, hfields, false_or, exists_const, and_false, or_false,
    PatternSettings.texts_or_eq_error, texts_unwritable_iff]
  refine and_congr_right fun _ => ⟨?_, ?_⟩
  · rintro ⟨_, hget, items, rfl, hwritable⟩
    exact ⟨items, hget, hwritable⟩
  · rintro ⟨items, hget, hwritable⟩
    exact ⟨_, hget, items, rfl, hwritable⟩

/-! ## Reading the layers -/

/-- Bytes that reading ends at, though no error tells of them. -/
def Untold (bytes : List UInt8) : Prop :=
  decode? bytes = none ∨ ∃ text, decode? bytes = some text ∧ Toml.parse text = .error .tooLong

theorem read_bytes_accident_iff {path : String} {bytes : List UInt8} :
    (∃ a, readBytes path bytes = .error (.accident a)) ↔ Untold bytes := by
  unfold readBytes Untold
  cases decode? bytes with
  | none => simp
  | some text =>
    dsimp only
    split
    · next hparse => simp [hparse]
    · next hparse => simp [hparse, refuse]
    · next hparse => simp [hparse]

theorem read_found_accident_iff {f : File} :
    (∃ a, readFound f = .error (.accident a)) ↔ ∃ bytes, f.bytes = some bytes ∧ Untold bytes := by
  unfold readFound
  cases f.bytes with
  | none => simp
  | some bytes => simp [read_bytes_accident_iff]

theorem read_asked_accident_iff {f : Option File} :
    (∃ a, readAsked f = .error (.accident a)) ↔
      ∃ f' bytes, f = some f' ∧ f'.bytes = some bytes ∧ Untold bytes := by
  rcases f with _ | ⟨path, _ | bytes⟩
  · simp [readAsked]
  · simp [readAsked, refuse]
  · simp [readAsked, read_bytes_accident_iff]

theorem read_variables_no_accident {environment : Entries String} {a : Accident} :
    readVariables environment ≠ .error (.accident a) := by
  unfold readVariables
  split <;> nofun

/-- Layers that are read end otherwise than in an error at the first file whose bytes do. -/
theorem entries_accident_iff {l : Layers} :
    (∃ a, l.entries = .error (.accident a)) ↔
      ∃ before f after bytes, l.found ++ l.asked.toList = before ++ f :: after ∧
        (∀ g ∈ before, ∃ es, readFound g = .ok es) ∧ f.bytes = some bytes ∧ Untold bytes := by
  unfold Layers.entries
  constructor
  · rintro ⟨a, h⟩
    rcases bind_eq_error.mp h with h | ⟨found, hfound, h⟩
    · obtain ⟨before, f, after, hfiles, hbefore, hf⟩ := map_m_eq_error.mp h
      obtain ⟨bytes, hbytes, huntold⟩ := read_found_accident_iff.mp ⟨a, hf⟩
      exact ⟨before, f, after ++ l.asked.toList, bytes, by simp [hfiles], hbefore, hbytes, huntold⟩
    · rcases bind_eq_error.mp h with h | ⟨asked, _, h⟩
      · obtain ⟨f, bytes, hasked, hbytes, huntold⟩ := read_asked_accident_iff.mp ⟨a, h⟩
        exact ⟨l.found, f, [], bytes, by simp [hasked], map_m_succeeds_iff.mp ⟨found, hfound⟩, hbytes,
          huntold⟩
      · rcases bind_eq_error.mp h with h | ⟨_, _, h⟩
        · exact absurd h read_variables_no_accident
        · nomatch h
  · rintro ⟨before, f, after, bytes, hfiles, hbefore, hbytes, huntold⟩
    obtain ⟨a, hf⟩ := read_found_accident_iff.mpr ⟨bytes, hbytes, huntold⟩
    have hfirst : FailsFirst readFound (l.found ++ l.asked.toList) (.accident a) :=
      ⟨before, f, after, hfiles, hbefore, hf⟩
    rcases fails_first_append.mp hfirst with h | ⟨hfound, h⟩
    · exact ⟨a, bind_eq_error.mpr (.inl (map_m_eq_error.mpr h))⟩
    · obtain ⟨found, hfound⟩ := map_m_succeeds_iff.mpr hfound
      obtain ⟨_, g, _, hasked, _, hg⟩ := h
      obtain ⟨bytes, hbytes, huntold⟩ := read_found_accident_iff.mp ⟨a, hg⟩
      have hasked : l.asked = some g := by
        cases hl : l.asked with
        | none => simp [hl] at hasked
        | some g' =>
          rw [hl, Option.toList_some, eq_comm, List.append_eq_singleton_iff] at hasked
          simp_all
      obtain ⟨b, hb⟩ := read_asked_accident_iff.mpr ⟨g, bytes, hasked, hbytes, huntold⟩
      exact ⟨b, bind_eq_error.mpr (.inr ⟨found, hfound, bind_eq_error.mpr (.inl hb)⟩)⟩

/-! ## Loading -/

/-- An error of the configuration, or an accident. -/
def IsConfiguration : Failure → Prop
  | .error e => e.kind = .configuration
  | .accident _ => True

theorem read_bytes_told (path : String) (bytes : List UInt8) :
    FailsOnly IsConfiguration (readBytes path bytes) := by
  unfold readBytes
  split
  · exact .error trivial
  · split
    · exact .ok
    · exact .error rfl
    · exact .error trivial

theorem entries_told (l : Layers) : FailsOnly IsConfiguration l.entries := by
  unfold Layers.entries
  refine FailsOnly.bind (.mapM fun f _ => ?_) fun _ _ => ?_
  · unfold readFound
    split
    · exact read_bytes_told _ _
    · exact .ok
  · refine FailsOnly.bind ?_ fun _ _ => FailsOnly.bind ?_ fun _ _ => .ok
    · unfold readAsked
      split
      · exact .ok
      · exact read_bytes_told _ _
      · exact .error rfl
    · unfold readVariables
      split
      · exact .ok
      · exact .error rfl

theorem load_told (l : Layers) : FailsOnly IsConfiguration (load l) := by
  refine (entries_told l).bind fun _ _ => FailsOnly.mapError fun e _ => ?_
  cases e with
  | outOfRange => trivial
  | unwritable => trivial
  | _ => rfl

/-- Layers whose loading ends otherwise than in an error: at a file, at the list of a section, at the
brackets, or at a disabled rule, where nothing before it is amiss. -/
inductive Unloadable (l : Layers) : Prop
  | file {before after : List File} {f : File} {bytes : List UInt8}
      (hfiles : l.found ++ l.asked.toList = before ++ f :: after)
      (hbefore : ∀ g ∈ before, ∃ es, readFound g = .ok es) (hbytes : f.bytes = some bytes)
      (huntold : Untold bytes)
  | patterns {layers : List (Entries Value)} {es : Entries Value} (hlayers : l.entries = .ok layers)
      (hwhole : l.overrides.patterns = none)
      (hgiven : Entries.get? (mergeAll layers) "patterns" = some (.table es))
      (hfields : ∀ e ∈ es, e.1 ∈ PatternSettings.fields)
      (hlists : ListsUnwritable es PatternSettings.fields)
  | brackets {layers : List (Entries Value)} {es : Entries Value} {patterns : PatternSettings}
      {v : Value} (hlayers : l.entries = .ok layers)
      (hpatterns : SectionFrom l.overrides.patterns (Entries.get? (mergeAll layers) "patterns")
        PatternSettings.ofEntries .standard patterns)
      (hwhole : l.overrides.statistics = none)
      (hgiven : Entries.get? (mergeAll layers) "statistics" = some (.table es))
      (hfields : ∀ e ∈ es, e.1 ∈ StatisticsSettings.fields)
      (hbrackets : Entries.get? es "tstat_thresholds" = some v)
      (hbeyond : StatisticsSettings.MapsBeyond v)
  | rules {layers : List (Entries Value)} {patterns : PatternSettings}
      {statistics : StatisticsSettings} {items : List Value} (hlayers : l.entries = .ok layers)
      (hpatterns : SectionFrom l.overrides.patterns (Entries.get? (mergeAll layers) "patterns")
        PatternSettings.ofEntries .standard patterns)
      (hstatistics : SectionFrom l.overrides.statistics
        (Entries.get? (mergeAll layers) "statistics") StatisticsSettings.ofEntries .standard
        statistics)
      (hfields : ∀ e ∈ mergeAll layers, e.1 ∈ fields)
      (hrules : Entries.get? (mergeAll layers) "disabled_rules" = some (.list items))
      (hwritable : Value.areWritable items = false)

theorem load_of_fault {l : Layers} {layers : List (Entries Value)} {e : SettingsFault}
    (hlayers : l.entries = .ok layers) (h : ofMerged l.overrides (mergeAll layers) = .error e) :
    load l = .error (failureOf e) :=
  bind_eq_error.mpr (.inr ⟨layers, hlayers, map_error_eq_error.mpr ⟨e, h, rfl⟩⟩)

theorem load_accident_iff {l : Layers} :
    (∃ a, load l = .error (.accident a)) ↔ Unloadable l := by
  unfold load
  constructor
  · rintro ⟨a, h⟩
    rcases bind_eq_error.mp h with h | ⟨layers, hlayers, h⟩
    · obtain ⟨before, f, after, bytes, hfiles, hbefore, hbytes, huntold⟩ :=
        entries_accident_iff.mp ⟨a, h⟩
      exact .file hfiles hbefore hbytes huntold
    · obtain ⟨e, hmerged, hfailure⟩ := map_error_eq_error.mp h
      have he := failure_of_eq_accident.mp ⟨a, hfailure⟩
      rcases bind_eq_error.mp hmerged with hpatterns | ⟨patterns, hpatterns, h⟩
      · obtain ⟨hwhole, es, hgiven, hmake⟩ := section_of_eq_error.mp hpatterns
        rcases he with rfl | rfl
        · exact absurd rfl (PatternSettings.of_entries_within es _ hmake)
        · obtain ⟨hfields, hlists⟩ := PatternSettings.of_entries_unwritable_iff.mp hmake
          exact .patterns hlayers hwhole hgiven hfields hlists
      · have hpatterns := section_of_eq_ok.mp hpatterns
        rcases bind_eq_error.mp h with hstatistics | ⟨statistics, hstatistics, h⟩
        · obtain ⟨hwhole, es, hgiven, hmake⟩ := section_of_eq_error.mp hstatistics
          rcases he with rfl | rfl
          · obtain ⟨hfields, v, hbrackets, hbeyond⟩ :=
              StatisticsSettings.of_entries_beyond_iff.mp hmake
            exact .brackets hlayers hpatterns hwhole hgiven hfields hbrackets hbeyond
          · exact absurd rfl (StatisticsSettings.of_entries_written es _ hmake)
        · have hstatistics := section_of_eq_ok.mp hstatistics
          rcases he with rfl | rfl
          · exact absurd rfl (top_within _ _ _ _ h)
          · obtain ⟨hfields, items, hrules, hwritable⟩ := top_unwritable_iff.mp h
            exact .rules hlayers hpatterns hstatistics hfields hrules hwritable
  · rintro (⟨hfiles, hbefore, hbytes, huntold⟩ | ⟨hlayers, hwhole, hgiven, hfields, hlists⟩ |
      ⟨hlayers, hpatterns, hwhole, hgiven, hfields, hbrackets, hbeyond⟩ |
      ⟨hlayers, hpatterns, hstatistics, hfields, hrules, hwritable⟩)
    · obtain ⟨a, h⟩ := entries_accident_iff.mpr ⟨_, _, _, _, hfiles, hbefore, hbytes, huntold⟩
      exact ⟨a, bind_eq_error.mpr (.inl h)⟩
    · have hmake := PatternSettings.of_entries_unwritable_iff.mpr ⟨hfields, hlists⟩
      refine ⟨.wrongValue, load_of_fault (e := .unwritable) hlayers (bind_eq_error.mpr (.inl ?_))⟩
      exact section_of_eq_error.mpr ⟨hwhole, _, hgiven, hmake⟩
    · have hmake := StatisticsSettings.of_entries_beyond_iff.mpr ⟨hfields, _, hbrackets, hbeyond⟩
      refine ⟨.outOfRange, load_of_fault (e := .outOfRange) hlayers (bind_eq_error.mpr (.inr
        ⟨_, section_of_eq_ok.mpr hpatterns, bind_eq_error.mpr (.inl ?_)⟩))⟩
      exact section_of_eq_error.mpr ⟨hwhole, _, hgiven, hmake⟩
    · refine ⟨.wrongValue, load_of_fault (e := .unwritable) hlayers (bind_eq_error.mpr (.inr
        ⟨_, section_of_eq_ok.mpr hpatterns, bind_eq_error.mpr (.inr ?_)⟩))⟩
      exact ⟨_, section_of_eq_ok.mpr hstatistics,
        top_unwritable_iff.mpr ⟨hfields, _, hrules, hwritable⟩⟩

/-- The sections of settings, and what was given where. -/
structure MadeOf (o : Overrides) (merged : Entries Value) (s : Settings) : Prop where
  patterns : SectionFrom o.patterns (Entries.get? merged "patterns") PatternSettings.ofEntries
    .standard s.patterns
  statistics : SectionFrom o.statistics (Entries.get? merged "statistics")
    StatisticsSettings.ofEntries .standard s.statistics

theorem made_of_load {l : Layers} {s : Settings} (h : load l = .ok s) :
    ∃ layers, l.entries = .ok layers ∧ MadeOf l.overrides (mergeAll layers) s := by
  obtain ⟨layers, hlayers, hmerged⟩ := bind_eq_ok.mp h
  obtain ⟨patterns, hpatterns, h⟩ := bind_eq_ok.mp (map_error_eq_ok.mp hmerged)
  obtain ⟨statistics, hstatistics, h⟩ := bind_eq_ok.mp h
  obtain ⟨rfl, rfl, -⟩ := taken_of_entries h
  exact ⟨layers, hlayers, section_of_eq_ok.mp hpatterns, section_of_eq_ok.mp hstatistics⟩

/-! ## Sections that are no tables -/

theorem get_erase (entries : Entries Value) (name other : String) :
    Entries.get? (Entries.erase entries name) other =
      if other = name then none else Entries.get? entries other := by
  induction entries with
  | nil => split <;> rfl
  | cons e entries ih =>
    obtain ⟨k, v⟩ := e
    rw [Entries.get_cons]
    by_cases hk : k = name
    · have herase : Entries.erase ((k, v) :: entries) name = Entries.erase entries name :=
        List.filter_cons_of_neg (by simpa using hk)
      rw [herase, ih]
      split
      · rfl
      · next hother => rw [if_neg (fun h => hother (h.trans hk))]
    · have herase : Entries.erase ((k, v) :: entries) name = (k, v) :: Entries.erase entries name :=
        List.filter_cons_of_pos (by simpa using hk)
      rw [herase, Entries.get_cons, ih]
      by_cases hother : other = k
      · rw [if_pos hother, if_pos hother, if_neg (fun h => hk (hother.symm.trans h))]
      · rw [if_neg hother, if_neg hother]

theorem section_of_erase {α : Type} {whole : Option α} {entries : Entries Value}
    {name erased : String} {make : Entries Value → Except SettingsFault α} {standard : α}
    (h : ∀ es, Entries.get? entries erased ≠ some (.table es)) :
    sectionOf whole (Entries.erase entries erased) name make standard =
      sectionOf whole entries name make standard := by
  unfold sectionOf
  cases whole with
  | some x => rfl
  | none =>
    rw [get_erase]
    by_cases hsame : name = erased
    · subst hsame
      rw [if_pos rfl]
      dsimp only
      split
      · next es hgiven => exact absurd hgiven (h es)
      · rfl
    · rw [if_neg hsame]

theorem check_fields_erase {section_ name : String} {fields : List String}
    {entries : Entries Value} (hname : name ∈ fields) :
    checkFields section_ fields (Entries.erase entries name) =
      checkFields section_ fields entries := by
  have hfind : (Entries.erase entries name).find? (fun e => e.1 ∉ fields) =
      entries.find? fun e => e.1 ∉ fields := by
    rw [Entries.erase, List.find?_filter]
    congr 1
    funext e
    by_cases he : e.1 = name
    · simp [he, hname]
    · simp [he]
  simp only [checkFields, hfind]

theorem of_merged_erase {o : Overrides} {entries : Entries Value} {name : String}
    (hname : isSection name = true) (h : ∀ es, Entries.get? entries name ≠ some (.table es)) :
    ofMerged o (Entries.erase entries name) = ofMerged o entries := by
  have hsection : name = "patterns" ∨ name = "statistics" := by
    simpa [isSection] using hname
  have hfield : name ∈ fields := by
    rcases hsection with rfl | rfl <;> decide
  have hrules : ("disabled_rules" : String) ≠ name := by
    rcases hsection with rfl | rfl <;> decide
  have hworkers : ("workers" : String) ≠ name := by
    rcases hsection with rfl | rfl <;> decide
  simp only [ofMerged, section_of_erase h, of_entries_eq, check_fields_erase hfield,
    PatternSettings.textsOr, field, get_erase, if_neg hrules, if_neg hworkers]

/-- Loading gives settings whose sections are what their tables give, or tells of the configuration,
or the layers are unloadable. A section that is no table, and that no whole one replaces, is passed
over. -/
theorem load_outcomes (l : Layers) :
    (∀ e, load l = .error (.error e) → e.kind = .configuration) ∧
      ((∃ a, load l = .error (.accident a)) ↔ Unloadable l) ∧
      ∀ layers, l.entries = .ok layers →
        (∀ s, load l = .ok s → MadeOf l.overrides (mergeAll layers) s) ∧
        ∀ name, isSection name = true →
          (∀ es, Entries.get? (mergeAll layers) name ≠ some (.table es)) →
          load l = (ofMerged l.overrides (Entries.erase (mergeAll layers) name)).mapError
            failureOf := by
  refine ⟨fun e h => load_told l _ h, load_accident_iff, fun layers hlayers => ⟨fun s h => ?_, ?_⟩⟩
  · obtain ⟨layers', hlayers', hmade⟩ := made_of_load h
    rw [hlayers, Except.ok.injEq] at hlayers'
    exact hlayers' ▸ hmade
  · intro name hname hother
    rw [of_merged_erase hname hother, load, hlayers]
    rfl

def projectFile (text : String) : Layers where
  found := [⟨"quantguard.toml", some (encode text)⟩]
  asked := none
  environment := []
  overrides := ⟨[], none, none⟩

def infiniteBracket : Layers := projectFile "[statistics]\ntstat_thresholds = [[inf, 2.0]]\n"

def numberForPatterns : Layers := projectFile "patterns = 5\n"

theorem number_for_patterns_loads :
    ∃ s layers, load numberForPatterns = .ok s ∧ numberForPatterns.entries = .ok layers ∧
      (Entries.get? (mergeAll layers) "patterns").map Value.isTable = some false := by
  have h : (do
      let s ← load numberForPatterns
      let layers ← numberForPatterns.entries
      return ((Entries.get? (mergeAll layers) "patterns").map Value.isTable, s.disabledRules) :
        Except Failure (Option Bool × List String)).toOption = some (some false, []) := by
    decide +kernel
  simp only [to_option_eq_some, bind_eq_ok] at h
  obtain ⟨s, hload, layers, hlayers, h⟩ := h
  injection h with h
  exact ⟨s, layers, hload, hlayers, congrArg Prod.fst h⟩

/-- The patterns of such a file are the standard ones. -/
theorem number_for_patterns_passed_over :
    ∃ s layers, load numberForPatterns = .ok s ∧ numberForPatterns.entries = .ok layers ∧
      isSection "patterns" = true ∧
      (∀ es, Entries.get? (mergeAll layers) "patterns" ≠ some (.table es)) ∧
      load numberForPatterns = (ofMerged numberForPatterns.overrides
        (Entries.erase (mergeAll layers) "patterns")).mapError failureOf ∧
      s.patterns = .standard := by
  obtain ⟨s, layers, hload, hlayers, hnumber⟩ := number_for_patterns_loads
  have hother : ∀ es, Entries.get? (mergeAll layers) "patterns" ≠ some (.table es) := by
    intro es hes
    rw [hes] at hnumber
    nomatch hnumber
  obtain ⟨hmade, herase⟩ := (load_outcomes numberForPatterns).2.2 layers hlayers
  refine ⟨s, layers, hload, hlayers, rfl, hother, herase "patterns" rfl hother, ?_⟩
  have hpatterns := (hmade s hload).patterns
  generalize s.patterns = patterns at hpatterns ⊢
  cases hpatterns with
  | passedOver => rfl
  | whole hwhole => nomatch hwhole
  | table _ hgiven => exact absurd hgiven (hother _)

/-- An infinite number of trials is not told as an error, and a number in the place of the patterns
is none at all. -/
theorem malformed_not_refused :
    load infiniteBracket = .error (.accident .outOfRange) ∧
      ∃ s layers, load numberForPatterns = .ok s ∧ numberForPatterns.entries = .ok layers ∧
        (Entries.get? (mergeAll layers) "patterns").map Value.isTable = some false := by
  refine ⟨?_, number_for_patterns_loads⟩
  have h : (match load infiniteBracket with
      | .error f => decide (f = .accident .outOfRange)
      | .ok _ => false) = true := by
    decide +kernel
  split at h
  · next f hf => exact of_decide_eq_true h ▸ hf
  · nomatch h

end Settings
end BacktestAudit
