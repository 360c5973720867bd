import BacktestAudit.Proofs.Data.Keyed
import BacktestAudit.Settings.Layers

/-!
Which layer a setting comes from. A field, at the top or in a section, takes what the highest layer
that sets it sets it to, read as the field asks, and its standard when no layer does; what it is set
to is never put together of several layers. The environment sets a field when its variable is read as
a value.
-/
namespace BacktestAudit
open BacktestAudit.Data BacktestAudit.Data.Outcome BacktestAudit.Text Settings
set_option autoImplicit false

/-! ## What layers set -/

namespace Settings

def isSection (name : String) : Bool := name = "patterns" || name = "statistics"

/-- Whether the sections of a layer are tables, and nothing else in it is one. -/
def isSectioned (layer : Entries Value) : Bool := layer.all fun e => e.2.isTable = isSection e.1

/-- Whether a field stands at the top, and is no section, or in one of the sections. -/
def isField (section_ field : String) : Bool :=
  if section_.isEmpty then !isSection field else isSection section_

def sectionIn (section_ : String) (layer : Entries Value) : Entries Value :=
  match Entries.get? layer section_ with
  | some (.table entries) => entries
  | _ => []

/-- What a layer sets a field of a section to; the top is a section without a name. -/
def setIn (section_ field : String) (layer : Entries Value) : Option Value :=
  if section_.isEmpty then Entries.get? layer field
  else Entries.get? (sectionIn section_ layer) field

def kindsOf (section_ : String) : List (String × VariableKind) :=
  if section_.isEmpty then topKinds
  else if section_ = "statistics" then statisticsKinds
  else []

/-- What the text of a variable is read as, if that is a value. -/
def variableValue (environment : Entries String) (name : String) (kind : VariableKind) :
    Option Value := do
  let s ← Entries.get? environment name
  (readVariable kind s).toOption.join

/-- What the variable of a field sets it to. -/
def setByVariable (environment : Entries String) (section_ field : String) : Option Value :=
  ((kindsOf section_).lookup field).bind (variableValue environment (variableName section_ field))

/-- What the files hold, those that win less first. -/
def Layers.files (l : Layers) : Except Failure (List (Entries Value)) := do
  let found ← l.found.mapM readFound
  let asked ← readAsked l.asked
  return found ++ [asked]

/-- What the highest layer that sets a field sets it to: what a caller asks for wins over the
environment, that over the files, and a later file over an earlier one. -/
def Layers.highest (l : Layers) (files : List (Entries Value)) (section_ field : String) :
    Option Value :=
  (setIn section_ field l.overrides.entries).or
    ((setByVariable l.environment section_ field).or
      (files.reverse.findSome? (setIn section_ field)))

end Settings

/-! ## What fields take -/

/-- A field takes what is read of the value that it is set to, and its standard when it is not set. -/
def Takes {α : Type} (read : Value → Except SettingsFault α) (standard : α) (set : Option Value)
    (taken : α) : Prop :=
  match set with
  | some v => read v = .ok taken
  | none => taken = standard

def optionalNumber (v : Value) : Except SettingsFault (Option Number) :=
  match v with
  | .null => .ok none
  | v => some <$> number v

/-- All fields of the patterns take what they are set to. -/
structure PatternSettings.Taken (set : String → Option Value) (s : PatternSettings) : Prop where
  position : Takes texts standard.position (set "position_patterns") s.position
  signal : Takes texts standard.signal (set "signal_patterns") s.signal
  credential : Takes texts standard.credential (set "credential_patterns") s.credential
  full_range : Takes texts standard.fullRange (set "full_range_aliases") s.fullRange

/-- All fields of the statistics take what they are set to. -/
structure StatisticsSettings.Taken (set : String → Option Value) (s : StatisticsSettings) :
    Prop where
  thresholds : Takes brackets standard.thresholds (set "tstat_thresholds") s.thresholds
  min_observations :
    Takes number standard.minObservations (set "dsr_min_observations") s.minObservations
  deflated_pass : Takes number standard.deflatedPass (set "dsr_pass_threshold") s.deflatedPass
  sharpe_trigger : Takes .ok standard.sharpeTrigger (set "dsr_sharpe_trigger") s.sharpeTrigger
  sharpe_variance :
    Takes optionalNumber standard.sharpeVariance (set "sharpe_variance") s.sharpeVariance
  blocks : Takes number standard.blocks (set "pbo_blocks") s.blocks
  max_exact_blocks : Takes .ok standard.maxExactBlocks (set "pbo_max_exact_blocks") s.maxExactBlocks
  max_sampled : Takes number standard.maxSampled (set "pbo_max_sampled_combinations") s.maxSampled
  seed : Takes .ok standard.seed (set "pbo_seed") s.seed
  batch_size : Takes number standard.batchSize (set "pbo_batch_size") s.batchSize
  overfit_pass : Takes number standard.overfitPass (set "pbo_pass_threshold") s.overfitPass
  flag_sharpe : Takes .ok standard.flagSharpe (set "red_flag_sharpe") s.flagSharpe
  flag_total_return :
    Takes .ok standard.flagTotalReturn (set "red_flag_total_return") s.flagTotalReturn
  flag_drawdown : Takes .ok standard.flagDrawdown (set "red_flag_drawdown") s.flagDrawdown
  flag_win_rate : Takes .ok standard.flagWinRate (set "red_flag_win_rate") s.flagWinRate

/-- All fields take what they are set to, at the top and in the sections. -/
structure Settings.Taken (set : String → String → Option Value) (s : Settings) : Prop where
  workers : Takes optionalNumber standard.workers (set "" "workers") s.workers
  disabled_rules : Takes texts standard.disabledRules (set "" "disabled_rules") s.disabledRules
  patterns : s.patterns.Taken (set "patterns")
  statistics : s.statistics.Taken (set "statistics")

section Fields
variable {α : Type} {read : Value → Except SettingsFault α} {standard taken : α}
  {entries : Entries Value} {name : String} {v : Value}

theorem takes_field (hstandard : read v = .ok standard)
    (h : read (field entries name v) = .ok taken) :
    Takes read standard (Entries.get? entries name) taken := by
  unfold Takes
  unfold field at h
  cases hset : Entries.get? entries name with
  | some w => simpa [hset] using h
  | none =>
    rw [hset, Option.getD_none, hstandard] at h
    exact (Except.ok.inj h).symm

theorem takes_or {set : Option Value}
    (h : (match set with
      | some v => read v
      | none => .ok standard) = .ok taken) : Takes read standard set taken := by
  cases set with
  | some v => exact h
  | none => exact (Except.ok.inj h).symm

theorem number_of_checked {condition : Number → Bool} {reason : String} {n : Number}
    (h : checkedNumber v condition reason = .ok n) : number v = .ok n := by
  unfold number
  rw [(checked_number_ok h).2]

theorem optional_of_checked {condition : Number → Bool} {reason : String} {n? : Option Number}
    (h : StatisticsSettings.checkedOptional v condition reason = .ok n?) :
    optionalNumber v = .ok n? := by
  unfold StatisticsSettings.checkedOptional at h
  unfold optionalNumber
  split at h
  · exact h
  · obtain ⟨n, hn, rfl⟩ := map_eq_ok.mp h
    simp only [number_of_checked hn]
    rfl

end Fields

theorem PatternSettings.taken_of_entries {entries : Entries Value} {s : PatternSettings}
    (h : ofEntries entries = .ok s) : s.Taken (Entries.get? entries) := by
  unfold ofEntries at h
  simp only [bind_eq_ok] at h
  obtain ⟨_, _, position, hposition, signal, hsignal, credential, hcredential, fullRange, hrange,
    h⟩ := h
  split at h
  · nomatch h
  · split at h
    · nomatch h
    · cases h
      exact ⟨takes_or hposition, takes_or hsignal, takes_or hcredential, takes_or hrange⟩

theorem StatisticsSettings.taken_of_entries {entries : Entries Value} {s : StatisticsSettings}
    (h : ofEntries entries = .ok s) : s.Taken (Entries.get? entries) := by
  unfold ofEntries at h
  simp only [bind_eq_ok] at h
  obtain ⟨_, _, _, thresholds, _, observations, _, deflated, _, variance, _, blocks, _, sampled, _,
    batch, _, overfit, h⟩ := h
  cases h
  exact {
    thresholds := takes_or thresholds
    min_observations := takes_field rfl (number_of_checked observations)
    deflated_pass := takes_field rfl (number_of_checked deflated)
    sharpe_trigger := takes_field rfl rfl
    sharpe_variance := takes_field rfl (optional_of_checked variance)
    blocks := takes_field rfl (number_of_checked blocks)
    max_exact_blocks := takes_field rfl rfl
    max_sampled := takes_field rfl (number_of_checked sampled)
    seed := takes_field rfl rfl
    batch_size := takes_field rfl (number_of_checked batch)
    overfit_pass := takes_field rfl (number_of_checked overfit)
    flag_sharpe := takes_field rfl rfl
    flag_total_return := takes_field rfl rfl
    flag_drawdown := takes_field rfl rfl
    flag_win_rate := takes_field rfl rfl }

namespace Settings

theorem of_entries_eq (entries : Entries Value) (patterns : PatternSettings)
    (statistics : StatisticsSettings) : ofEntries entries patterns statistics = (do
      checkFields sectionName fields entries
      let disabledRules ← PatternSettings.textsOr entries "disabled_rules" []
      let workers ← StatisticsSettings.checkedOptional (field entries "workers" .null)
        (StatisticsSettings.isAtLeast 1) "workers must be at least 1"
      return { workers, disabledRules, patterns, statistics }) := by
  unfold ofEntries PatternSettings.textsOr
  cases Entries.get? entries "disabled_rules" <;> cases field entries "workers" .null <;> rfl

/-- The sections that are made before are taken over; the other fields take what they are set to. -/
theorem taken_of_entries {entries : Entries Value} {patterns : PatternSettings}
    {statistics : StatisticsSettings} {s : Settings}
    (h : ofEntries entries patterns statistics = .ok s) :
    s.patterns = patterns ∧ s.statistics = statistics ∧
      Takes optionalNumber standard.workers (Entries.get? entries "workers") s.workers ∧
      Takes texts standard.disabledRules (Entries.get? entries "disabled_rules") s.disabledRules := by
  rw [of_entries_eq] at h
  simp only [bind_eq_ok] at h
  obtain ⟨_, _, rules, hrules, workers, hworkers, h⟩ := h
  cases h
  exact ⟨rfl, rfl, takes_field rfl (optional_of_checked hworkers), takes_or hrules⟩

/-! ## Merging -/

/-- A value that is laid over another: of two tables, the entries of the upper win. -/
def laid (new : Value) (old : Option Value) : Value :=
  match new, old with
  | .table new, some (.table old) => .table (Entries.override old new)
  | new, _ => new

theorem merge_entry_eq (target : Entries Value) (name : String) (v : Value) :
    mergeEntry target (name, v) =
      Entries.insert target name (laid v (Entries.get? target name)) := by
  cases v with
  | table new =>
    unfold mergeEntry
    cases hold : Entries.get? target name with
    | none => simp [laid]
    | some w => cases w <;> simp [laid]
  | _ => rfl

theorem get_merge {layer : Entries Value} (h : (Entries.keys layer).Nodup) (target : Entries Value)
    (name : String) : Entries.get? (merge target layer) name =
      ((Entries.get? layer name).map (laid · (Entries.get? target name))).or
        (Entries.get? target name) := by
  induction layer generalizing target with
  | nil => rfl
  | cons e rest ih =>
    obtain ⟨hnew, hrest⟩ := List.nodup_cons.mp h
    have hmerge : merge target (e :: rest) = merge (mergeEntry target e) rest := rfl
    obtain ⟨k, v⟩ := e
    rw [hmerge, ih hrest, merge_entry_eq, Entries.get_insert]
    by_cases hname : name = k
    · subst hname
      simp [Entries.get_cons, Entries.get_eq_none hnew]
    · rw [Entries.get_cons, if_neg hname, if_neg hname]

/-- A layer with distinct keys, in which the sections are tables and nothing else is. -/
structure WellFormed (layer : Entries Value) : Prop where
  keyed : (Value.table layer).Keyed
  sectioned : isSectioned layer = true

namespace WellFormed

variable {layer : Entries Value} (h : WellFormed layer)
include h

theorem table_iff {name : String} {v : Value} (hv : Entries.get? layer name = some v) :
    v.isTable = isSection name := by
  have hmem := (Entries.get_eq_some_iff h.keyed.distinct).mp hv
  simpa using List.all_eq_true.mp h.sectioned _ hmem

/-- What a layer sets is laid over what was set before, field by field. -/
theorem set_in_merge {section_ field : String} (hfield : isField section_ field = true)
    (target : Entries Value) :
    setIn section_ field (merge target layer) =
      (setIn section_ field layer).or (setIn section_ field target) := by
  unfold isField at hfield
  unfold setIn
  by_cases htop : section_.isEmpty = true
  -- At the top a field is no table in the layer, so it takes the place of what there was.
  · rw [if_pos htop] at hfield
    simp only [if_pos htop]
    rw [get_merge h.keyed.distinct]
    cases hv : Entries.get? layer field with
    | none => rfl
    | some v =>
      have hplain : v.isTable = false := (h.table_iff hv).trans (by simpa using hfield)
      cases v with
      | table es => nomatch hplain
      | _ => rfl
  -- A section is a table in the layer: its entries are laid over those of the table that there was.
  · rw [if_neg htop] at hfield
    simp only [if_neg htop]
    unfold sectionIn
    rw [get_merge h.keyed.distinct]
    cases hv : Entries.get? layer section_ with
    | none => rfl
    | some v =>
      have htable := h.table_iff hv
      rw [hfield] at htable
      cases v with
      | table new =>
        have hnew := (h.keyed.get hv).distinct
        cases hold : Entries.get? target section_ with
        | none => exact Option.or_none.symm
        | some w =>
          cases w with
          | table old => exact Entries.get_override_of_nodup hnew old field
          | _ => exact Option.or_none.symm
      | _ => nomatch htable

end WellFormed

/-- Layers that are laid over each other set a field to what the highest of them sets it to. -/
theorem set_in_fold {layers : List (Entries Value)} (h : ∀ layer ∈ layers, WellFormed layer)
    {section_ field : String} (hfield : isField section_ field = true) (target : Entries Value) :
    setIn section_ field (layers.foldl merge target) =
      (layers.reverse.findSome? (setIn section_ field)).or (setIn section_ field target) := by
  induction layers generalizing target with
  | nil => rfl
  | cons layer layers ih =>
    obtain ⟨hlayer, hlayers⟩ := List.forall_mem_cons.mp h
    rw [List.foldl_cons, ih hlayers, hlayer.set_in_merge hfield, List.reverse_cons,
      List.findSome?_append, ← Option.or_assoc]
    simp

theorem set_in_merge_all {layers : List (Entries Value)} (h : ∀ layer ∈ layers, WellFormed layer)
    {section_ field : String} (hfield : isField section_ field = true) :
    setIn section_ field (mergeAll layers) = layers.reverse.findSome? (setIn section_ field) := by
  have hnone : setIn section_ field [] = none := by
    unfold setIn
    split <;> rfl
  rw [mergeAll, set_in_fold h hfield, hnone, Option.or_none]

/-! ## Files and variables -/

theorem read_bytes_keyed {path : String} {bytes : List UInt8} {entries : Entries Value}
    (h : readBytes path bytes = .ok entries) : (Value.table entries).Keyed := by
  unfold readBytes at h
  split at h
  · nomatch h
  · split at h
    · next hparse => exact Except.ok.inj h ▸ Toml.parse_keyed hparse
    · nomatch h
    · nomatch h

theorem empty_keyed : (Value.table []).Keyed := .table List.nodup_nil nofun

theorem files_keyed {l : Layers} {files : List (Entries Value)} (h : l.files = .ok files) :
    ∀ file ∈ files, (Value.table file).Keyed := by
  unfold Layers.files at h
  simp only [bind_eq_ok] at h
  obtain ⟨found, hfound, asked, hasked, h⟩ := h
  cases h
  intro file hfile
  rcases List.mem_append.mp hfile with hfile | hfile
  · obtain ⟨f, _, hread⟩ := exists_left_of_mem (mapM_eq_ok_iff.mp hfound) hfile
    unfold readFound at hread
    split at hread
    · exact read_bytes_keyed hread
    · exact Except.ok.inj hread ▸ empty_keyed
  · rw [List.mem_singleton.mp hfile]
    unfold readAsked at hasked
    split at hasked
    · exact Except.ok.inj hasked ▸ empty_keyed
    · exact read_bytes_keyed hasked
    · nomatch hasked

theorem readable_plain {β : Type} {r : Option β} {make : β → Value} {v : Value}
    (hmake : ∀ b, (make b).isPlain = true) (h : readable (r.map make) = .ok (some v)) :
    v.isPlain = true := by
  cases r with
  | none => nomatch h
  | some b =>
    cases h
    exact hmake b

theorem not_table_of_plain {v : Value} (h : v.isPlain = true) : v.isTable = false := by
  cases v with
  | table es => nomatch h
  | _ => rfl

theorem read_variable_keyed {kind : VariableKind} {s : String} {v : Value}
    (h : readVariable kind s = .ok (some v)) : v.Keyed ∧ v.isTable = false := by
  have of_plain (hplain : v.isPlain = true) : v.Keyed ∧ v.isTable = false :=
    ⟨.plain hplain, not_table_of_plain hplain⟩
  cases kind with
  | truth | integer | double => exact of_plain (readable_plain (fun _ => rfl) h)
  | words =>
    cases h
    refine ⟨.list fun w hw => ?_, rfl⟩
    obtain ⟨_, _, rfl⟩ := List.mem_map.mp hw
    exact .plain rfl
  | text =>
    cases h
    exact of_plain rfl
  | complex => nomatch h

theorem read_section_cons {environment : Entries String} {section_ field : String}
    {kind : VariableKind} {rest : List (String × VariableKind)} {entries : Entries Value}
    (h : readSection environment section_ ((field, kind) :: rest) = .ok entries) :
    ∃ others, readSection environment section_ rest = .ok others ∧
      entries = ((variableValue environment (variableName section_ field) kind).map
        (field, ·)).toList ++ others := by
  unfold readSection at h
  unfold variableValue
  simp only at h
  split at h
  · next hnone => exact ⟨entries, h, by simp [hnone]⟩
  · next s hs =>
    split at h
    · nomatch h
    · next hread => exact ⟨entries, h, by simp [hs, hread, Except.toOption]⟩
    · next v hread =>
      obtain ⟨others, hothers, h⟩ := bind_eq_ok.mp h
      cases h
      exact ⟨others, hothers, by simp [hs, hread, Except.toOption]⟩

theorem read_section_keys {environment : Entries String} {section_ : String}
    {kinds : List (String × VariableKind)} {entries : Entries Value}
    (h : readSection environment section_ kinds = .ok entries) :
    (Entries.keys entries).Sublist (Entries.keys kinds) := by
  induction kinds generalizing entries with
  | nil =>
    cases h
    exact .slnil
  | cons e rest ih =>
    obtain ⟨others, hothers, rfl⟩ := read_section_cons h
    cases variableValue environment (variableName section_ e.1) e.2 with
    | none => exact (ih hothers).cons _
    | some v => exact (ih hothers).cons_cons _

/-- A section that variables give sets a field to what its variable is read as. -/
theorem get_read_section {environment : Entries String} {section_ : String}
    {kinds : List (String × VariableKind)} (hdistinct : (Entries.keys kinds).Nodup)
    {entries : Entries Value} (h : readSection environment section_ kinds = .ok entries)
    (field : String) : Entries.get? entries field = (kinds.lookup field).bind
      (variableValue environment (variableName section_ field)) := by
  induction kinds generalizing entries with
  | nil =>
    cases h
    rfl
  | cons e rest ih =>
    obtain ⟨name, kind⟩ := e
    obtain ⟨hnew, hrest⟩ := List.nodup_cons.mp hdistinct
    obtain ⟨others, hothers, rfl⟩ := read_section_cons h
    have hget : Entries.get? (((variableValue environment (variableName section_ name) kind).map
        (name, ·)).toList ++ others) field =
        if field = name then (variableValue environment (variableName section_ name) kind).or
          (Entries.get? others field) else Entries.get? others field := by
      cases variableValue environment (variableName section_ name) kind with
      | none => simp
      | some v => exact Entries.get_cons name v others field
    rw [hget, ih hrest hothers, List.lookup_cons]
    by_cases hname : field = name
    · subst hname
      have hnone : rest.lookup field = none := Entries.get_eq_none hnew
      simp [hnone]
    · rw [if_neg hname, beq_eq_false_iff_ne.mpr hname]

theorem variable_value_keyed {environment : Entries String} {name : String} {kind : VariableKind}
    {v : Value} (h : variableValue environment name kind = some v) :
    v.Keyed ∧ v.isTable = false := by
  obtain ⟨s, _, hread⟩ := Option.bind_eq_some_iff.mp h
  exact read_variable_keyed (to_option_eq_some.mp (Option.join_eq_some_iff.mp hread))

theorem read_section_values {environment : Entries String} {section_ : String}
    {kinds : List (String × VariableKind)} {entries : Entries Value}
    (h : readSection environment section_ kinds = .ok entries) :
    ∀ e ∈ entries, e.2.Keyed ∧ e.2.isTable = false := by
  induction kinds generalizing entries with
  | nil =>
    cases h
    exact nofun
  | cons e rest ih =>
    obtain ⟨others, hothers, rfl⟩ := read_section_cons h
    intro d hd
    rcases List.mem_append.mp hd with hd | hd
    · obtain ⟨v, hv, rfl⟩ := Option.map_eq_some_iff.mp (Option.mem_toList.mp hd)
      exact variable_value_keyed hv
    · exact ih hothers d hd

theorem kinds_distinct (section_ : String) : (Entries.keys (kindsOf section_)).Nodup := by
  unfold kindsOf
  split
  · decide
  · split
    · decide
    · exact List.nodup_nil

theorem get_section_of_top {environment : Entries String} {top : Entries Value}
    (h : readSection environment "" topKinds = .ok top) {name : String}
    (hname : isSection name = true) : Entries.get? top name = none := by
  have hcomplex : topKinds.lookup name = some .complex := by
    rcases Bool.or_eq_true_iff.mp hname with hname | hname <;> rw [of_decide_eq_true hname] <;> rfl
  have hdistinct : (Entries.keys topKinds).Nodup := kinds_distinct ""
  rw [get_read_section hdistinct h, hcomplex, Option.bind_some, variableValue]
  cases Entries.get? environment (variableName "" name) <;> rfl

section Variables
variable {environment : Entries String} {top statistics layer : Entries Value}

theorem of_variables_eq_ok (h : ofVariables environment = .ok layer) :
    ∃ top statistics, readSection environment "" topKinds = .ok top ∧
      readSection environment "statistics" statisticsKinds = .ok statistics ∧
      layer = if statistics.isEmpty then top else top ++ [("statistics", .table statistics)] := by
  obtain ⟨top, htop, h⟩ := bind_eq_ok.mp h
  obtain ⟨statistics, hstatistics, h⟩ := bind_eq_ok.mp h
  exact ⟨top, statistics, htop, hstatistics, (Except.ok.inj h).symm⟩

theorem variables_well_formed (h : ofVariables environment = .ok layer) : WellFormed layer := by
  obtain ⟨top, statistics, htop, hstatistics, rfl⟩ := of_variables_eq_ok h
  have hdistinct : (Entries.keys top).Nodup := (kinds_distinct "").sublist (read_section_keys htop)
  have hplain : ∀ e ∈ top, isSection e.1 = false := by
    intro e he
    by_contra hsection
    have hnone := get_section_of_top htop (eq_true_of_ne_false hsection)
    rw [(Entries.get_eq_some_iff hdistinct).mpr he] at hnone
    nomatch hnone
  have hvalues := read_section_values htop
  have htop : WellFormed top :=
    { keyed := .table hdistinct fun e he => (hvalues e he).1
      sectioned := List.all_eq_true.mpr fun e he => by simp [(hvalues e he).2, hplain e he] }
  split
  · exact htop
  · have hkeyed : (Value.table statistics).Keyed :=
      .table ((kinds_distinct "statistics").sublist (read_section_keys hstatistics))
        fun e he => (read_section_values hstatistics e he).1
    -- The section comes last, under a name that no variable of the top has given.
    have hnew : "statistics" ∉ Entries.keys top := by
      intro hmem
      obtain ⟨e, he, hname⟩ := List.mem_map.mp hmem
      have hsection := hplain e he
      rw [hname] at hsection
      nomatch hsection
    refine { keyed := .table ?_ fun e he => ?_, sectioned := ?_ }
    · rw [Entries.keys, List.map_append]
      exact List.nodup_append'.mpr ⟨hdistinct, List.nodup_singleton _, List.disjoint_singleton.mpr hnew⟩
    · rcases List.mem_append.mp he with he | he
      · exact (hvalues e he).1
      · rw [List.mem_singleton.mp he]
        exact hkeyed
    · rw [isSectioned, List.all_append, Bool.and_eq_true]
      exact ⟨htop.sectioned, rfl⟩

theorem set_in_variables (h : ofVariables environment = .ok layer) {section_ field : String}
    (hfield : isField section_ field = true) :
    setIn section_ field layer = setByVariable environment section_ field := by
  obtain ⟨top, statistics, htop, hstatistics, hlayer⟩ := of_variables_eq_ok h
  have hget (name : String) : Entries.get? layer name =
      (Entries.get? top name).or (if name = "statistics" ∧ statistics ≠ [] then
        some (.table statistics) else none) := by
    rw [hlayer]
    cases statistics with
    | nil => simp
    | cons e es =>
      simp only [List.isEmpty_cons, Bool.false_eq_true, if_false, ne_eq, reduceCtorEq,
        not_false_eq_true, and_true]
      rw [Entries.get?, List.lookup_append]
      congr 1
      exact Entries.get_cons "statistics" (Value.table (e :: es)) [] name
  unfold isField at hfield
  unfold setIn setByVariable
  by_cases hsection : section_.isEmpty = true
  · rw [if_pos hsection] at hfield ⊢
    obtain rfl := String.isEmpty_iff.mp hsection
    have hname : field ≠ "statistics" := by
      rintro rfl
      cases hfield
    rw [hget, if_neg fun h => hname h.1, Option.or_none]
    exact get_read_section (kinds_distinct "") htop field
  · rw [if_neg hsection] at hfield ⊢
    rw [sectionIn, hget, get_section_of_top htop hfield, Option.none_or]
    rcases Bool.or_eq_true_iff.mp hfield with hname | hname
    · rw [of_decide_eq_true hname]
      rfl
    · rw [of_decide_eq_true hname]
      have hstatistics := get_read_section (kinds_distinct "statistics") hstatistics field
      cases statistics with
      | nil => exact hstatistics
      | cons e es => exact hstatistics

end Variables

/-! ## Loading -/

theorem section_of_eq {α : Type} {make : Entries Value → Except SettingsFault α} {standard : α}
    (hstandard : make [] = .ok standard) (entries : Entries Value) (name : String) :
    sectionOf none entries name make standard = make (sectionIn name entries) := by
  simp only [sectionOf, sectionIn]
  cases Entries.get? entries name with
  | none => exact hstandard.symm
  | some v =>
    cases v with
    | table es => rfl
    | _ => exact hstandard.symm

/-- Settings that are made of merged entries take what these set. -/
theorem taken_of_merged {o : Overrides} (hpatterns : o.patterns = none)
    (hstatistics : o.statistics = none) {entries : Entries Value} {s : Settings}
    (h : ofMerged o entries = .ok s) {set : String → String → Option Value}
    (hset : ∀ section_ field, isField section_ field = true →
      setIn section_ field entries = set section_ field) : s.Taken set := by
  have hmake : PatternSettings.ofEntries [] = .ok .standard := rfl
  have hmake' : StatisticsSettings.ofEntries [] = .ok .standard := rfl
  unfold ofMerged at h
  simp only [bind_eq_ok, hpatterns, hstatistics, section_of_eq hmake, section_of_eq hmake'] at h
  obtain ⟨patterns, hpatterns, statistics, hstatistics, h⟩ := h
  have hin : Entries.get? (sectionIn "patterns" entries) = set "patterns" :=
    funext fun field => hset "patterns" field rfl
  have hin' : Entries.get? (sectionIn "statistics" entries) = set "statistics" :=
    funext fun field => hset "statistics" field rfl
  obtain ⟨rfl, rfl, hworkers, hrules⟩ := taken_of_entries h
  exact {
    workers := hset "" "workers" rfl ▸ hworkers
    disabled_rules := hset "" "disabled_rules" rfl ▸ hrules
    patterns := hin ▸ PatternSettings.taken_of_entries hpatterns
    statistics := hin' ▸ StatisticsSettings.taken_of_entries hstatistics }

/-- The files come first, the environment wins over them, and what a caller asks for over that. -/
theorem entries_eq_ok {l : Layers} {files layers : List (Entries Value)}
    (hfiles : l.files = .ok files) (h : l.entries = .ok layers) :
    ∃ environment, ofVariables l.environment = .ok environment ∧
      layers = files ++ [environment, l.overrides.entries] := by
  unfold Layers.files at hfiles
  unfold Layers.entries at h
  simp only [bind_eq_ok] at hfiles h
  obtain ⟨found, hfound, asked, hasked, hfiles⟩ := hfiles
  obtain ⟨found', hfound', asked', hasked', environment, henvironment, h⟩ := h
  rw [hfound] at hfound'
  rw [hasked] at hasked'
  cases hfound'
  cases hasked'
  cases hfiles
  cases h
  refine ⟨environment, ?_, by simp⟩
  unfold readVariables at henvironment
  split at henvironment
  · next hvariables => exact Except.ok.inj henvironment ▸ hvariables
  · nomatch henvironment

/-- When sections are tables in all layers and nothing else is, loaded settings take, field by field,
what the highest layer that sets the field sets it to, and the standard where no layer sets it. -/
theorem loaded_take_highest {l : Layers} {files : List (Entries Value)} {s : Settings}
    (hfiles : l.files = .ok files) (hload : load l = .ok s)
    (hkeyed : (Value.table l.overrides.entries).Keyed)
    (hsections : ∀ layer ∈ l.overrides.entries :: files, isSectioned layer = true)
    (hpatterns : l.overrides.patterns = none) (hstatistics : l.overrides.statistics = none) :
    s.Taken (l.highest files) := by
  obtain ⟨layers, hlayers, hmerged⟩ := bind_eq_ok.mp hload
  obtain ⟨environment, henvironment, rfl⟩ := entries_eq_ok hfiles hlayers
  obtain ⟨hoverrides, hsections⟩ := List.forall_mem_cons.mp hsections
  have hwell : ∀ layer ∈ files ++ [environment, l.overrides.entries], WellFormed layer := by
    intro layer hlayer
    rcases List.mem_append.mp hlayer with hfile | hlayer
    · exact ⟨files_keyed hfiles layer hfile, hsections layer hfile⟩
    · rcases List.mem_pair.mp hlayer with rfl | rfl
      · exact variables_well_formed henvironment
      · exact ⟨hkeyed, hoverrides⟩
  refine taken_of_merged hpatterns hstatistics (map_error_eq_ok.mp hmerged)
    fun section_ field hfield => ?_
  have hcons (layer : Entries Value) (rest : List (Entries Value)) :
      (layer :: rest).findSome? (setIn section_ field) =
        (setIn section_ field layer).or (rest.findSome? (setIn section_ field)) := by
    rw [List.findSome?_cons]
    cases setIn section_ field layer <;> rfl
  have hreverse : (files ++ [environment, l.overrides.entries]).reverse =
      l.overrides.entries :: environment :: files.reverse := by simp
  rw [set_in_merge_all hwell hfield, hreverse, hcons, hcons,
    set_in_variables henvironment hfield, Layers.highest]

/-- Layers of which each sets some fields of others: two files that may be missing, a file that is
asked for, variables of which one leaves its field alone, and what a caller asks for. -/
def fiveLayers : Layers where
  found := [
    ⟨"global.toml", some (encode ("workers = 2\ndisabled_rules = ['SEC002']\n" ++
      "[statistics]\npbo_blocks = 8\npbo_seed = 1\n" ++
      "[statistics.tstat_thresholds]\n1 = 2\n10 = 3\n"))⟩,
    ⟨"project.toml", some (encode ("[statistics.tstat_thresholds]\n1 = 4\n" ++
      "[patterns]\nposition_patterns = ['qty']\n"))⟩]
  asked := some ⟨"asked.toml", some (encode "[statistics]\npbo_blocks = 10\n")⟩
  environment := [("QUANTGUARD_WORKERS", "3"), ("QUANTGUARD_STATISTICS_PBO_SEED", "7"),
    ("QUANTGUARD_STATISTICS_TSTAT_THRESHOLDS", "5"), ("QUANTGUARD_STATISTICS", "none")]
  overrides := ⟨[("workers", .int 5), ("statistics", .table [("pbo_batch_size", .int 64)])], none,
    none⟩

theorem five_layers_take_highest :
    ∃ files s, fiveLayers.files = .ok files ∧ load fiveLayers = .ok s ∧
      s.Taken (fiveLayers.highest files) ∧
      s.workers.bind Number.toInt? = some 5 ∧ s.disabledRules = ["SEC002"] ∧
      s.patterns.position = ["qty"] ∧ s.patterns.signal = PatternSettings.standard.signal ∧
      s.statistics.thresholds = [(1, 4.0)] ∧ s.statistics.blocks.toInt? = some 10 ∧
      s.statistics.seed.number?.bind Number.toInt? = some 7 ∧
      s.statistics.batchSize.toInt? = some 64 := by
  have hfacts : (fiveLayers.files.toOption.any fun files => files.all isSectioned &&
      (load fiveLayers).toOption.any fun s =>
        s.workers.bind Number.toInt? = some 5 ∧ s.disabledRules = ["SEC002"] ∧
        s.patterns.position = ["qty"] ∧ s.patterns.signal = PatternSettings.standard.signal ∧
        s.statistics.thresholds = [(1, 4.0)] ∧ s.statistics.blocks.toInt? = some 10 ∧
        s.statistics.seed.number?.bind Number.toInt? = some 7 ∧
        s.statistics.batchSize.toInt? = some 64) = true := by
    decide +kernel
  obtain ⟨files, hfiles, hfacts⟩ := to_option_any_iff.mp hfacts
  obtain ⟨hsections, hfacts⟩ := Bool.and_eq_true_iff.mp hfacts
  obtain ⟨s, hload, htaken⟩ := to_option_any_iff.mp hfacts
  have hbatch : (Value.table [("pbo_batch_size", .int 64)]).Keyed :=
    .table (by decide) fun e he => List.mem_singleton.mp he ▸ .plain rfl
  have hkeyed : (Value.table fiveLayers.overrides.entries).Keyed := by
    refine .table (by decide) fun e he => ?_
    rcases List.mem_pair.mp he with rfl | rfl
    · exact .plain rfl
    · exact hbatch
  exact ⟨files, s, hfiles, hload,
    loaded_take_highest hfiles hload hkeyed
      (List.forall_mem_cons.mpr ⟨by decide, List.all_eq_true.mp hsections⟩) rfl rfl,
    of_decide_eq_true htaken⟩

end Settings

end BacktestAudit
