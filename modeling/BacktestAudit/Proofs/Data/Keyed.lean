import BacktestAudit.Data.Outcome
import BacktestAudit.Data.Toml
import Mathlib.Data.List.Nodup

/-!
Tables that name each of their keys once, at every depth. Setting a key keeps a table so, and a text
that is read gives only such tables: a key that it gives twice is refused.
-/
namespace BacktestAudit.Data
open BacktestAudit.Data.Outcome
set_option autoImplicit false

/-! ## Entries with distinct keys -/

namespace Entries
variable {α : Type} {entries : Entries α}

theorem mem_insert {key : String} {value : α} {e : String × α} (h : e ∈ insert entries key value) :
    e = (key, value) ∨ e ∈ entries := by
  induction entries with
  | nil => exact .inl (List.mem_singleton.mp h)
  | cons d rest ih =>
    obtain ⟨k, v⟩ := d
    unfold insert at h
    split at h
    · exact (List.mem_cons.mp h).imp_right (List.mem_cons_of_mem _)
    · rcases List.mem_cons.mp h with rfl | h
      · exact .inr (List.mem_cons_self ..)
      · exact (ih h).imp_right (List.mem_cons_of_mem _)

theorem keys_insert (entries : Entries α) (key : String) (value : α) :
    keys (insert entries key value) =
      if key ∈ keys entries then keys entries else keys entries ++ [key] := by
  induction entries with
  | nil => rfl
  | cons d rest ih =>
    obtain ⟨k, v⟩ := d
    unfold insert
    by_cases hk : k = key
    · subst hk
      simp [keys]
    · have hne : key ≠ k := Ne.symm hk
      simp only [keys, List.map_cons] at ih ⊢
      rw [if_neg hk, List.map_cons, ih]
      by_cases hmem : key ∈ rest.map (·.1) <;> simp [hmem, hne]

theorem nodup_insert (h : (keys entries).Nodup) (key : String) (value : α) :
    (keys (insert entries key value)).Nodup := by
  rw [keys_insert]
  split
  · exact h
  · next hnew => exact List.nodup_append'.mpr ⟨h, List.nodup_singleton _, by simpa using hnew⟩

theorem get_cons (key : String) (value : α) (rest : Entries α) (other : String) :
    get? ((key, value) :: rest) other = if other = key then some value else get? rest other := by
  unfold get?
  by_cases h : other = key
  · rw [if_pos h, List.lookup_cons, beq_iff_eq.mpr h]
  · rw [if_neg h, List.lookup_cons, beq_eq_false_iff_ne.mpr h]

theorem get_eq_none {key : String} (h : key ∉ keys entries) : get? entries key = none := by
  induction entries with
  | nil => rfl
  | cons d rest ih =>
    rw [keys, List.map_cons, List.mem_cons, not_or] at h
    rw [get_cons, if_neg h.1, ih h.2]

theorem get_eq_some_iff (h : (keys entries).Nodup) {key : String} {value : α} :
    get? entries key = some value ↔ (key, value) ∈ entries := by
  induction entries with
  | nil => simp [get?]
  | cons d rest ih =>
    obtain ⟨k, v⟩ := d
    obtain ⟨hnew, hrest⟩ := List.nodup_cons.mp h
    rw [get_cons, List.mem_cons, Prod.mk.injEq]
    by_cases hk : key = k
    · subst hk
      have hnone : (key, value) ∉ rest := fun hmem => hnew (List.mem_map_of_mem (f := (·.1)) hmem)
      simp [hnone, eq_comm]
    · rw [if_neg hk, ih hrest]
      simp [hk]

theorem get_override_of_nodup {other : Entries α} (h : (keys other).Nodup) (entries : Entries α)
    (key : String) : get? (override entries other) key = (get? other key).or (get? entries key) := by
  have hreverse : (keys other.reverse).Nodup := by
    rw [keys, List.map_reverse]
    exact List.nodup_reverse.mpr h
  have hget : get? other.reverse key = get? other key := by
    ext value
    rw [get_eq_some_iff hreverse, get_eq_some_iff h, List.mem_reverse]
  rw [get_override, hget]

end Entries

/-! ## Values -/

/-- Whether a value holds no others. -/
def Value.isPlain : Value → Bool
  | .list _ | .table _ => false
  | _ => true

/-- A value whose tables name each key once. -/
inductive Value.Keyed : Value → Prop
  | plain {v : Value} (h : v.isPlain = true) : Keyed v
  | list {items : List Value} (h : ∀ v ∈ items, Keyed v) : Keyed (.list items)
  | table {entries : Entries Value} (distinct : (Entries.keys entries).Nodup)
      (h : ∀ e ∈ entries, Keyed e.2) : Keyed (.table entries)

theorem Value.Keyed.distinct {entries : Entries Value} (h : (Value.table entries).Keyed) :
    (Entries.keys entries).Nodup := by
  cases h with
  | plain h => nomatch h
  | table distinct _ => exact distinct

theorem Value.Keyed.get {entries : Entries Value} (h : (Value.table entries).Keyed) {key : String}
    {v : Value} (hv : Entries.get? entries key = some v) : v.Keyed := by
  cases h with
  | plain h => nomatch h
  | table distinct h => exact h _ ((Entries.get_eq_some_iff distinct).mp hv)

namespace Toml

/-! ## Trees -/

inductive Node.Keyed : Node → Prop
  | leaf {v : Value} (h : v.Keyed) : Keyed (.leaf v)
  | branch {writer : Option Nat} {entries : Nodes} (distinct : (Entries.keys entries).Nodup)
      (h : ∀ e ∈ entries, Keyed e.2) : Keyed (.branch writer entries)
  | series {finished : List Value} {current : Nodes} (hfinished : ∀ v ∈ finished, v.Keyed)
      (distinct : (Entries.keys current).Nodup) (h : ∀ e ∈ current, Keyed e.2) :
      Keyed (.series finished current)

/-- Nodes under distinct names. -/
structure Nodes.Keyed (nodes : Nodes) : Prop where
  distinct : (Entries.keys nodes).Nodup
  each : ∀ e ∈ nodes, e.2.Keyed

theorem values_of_eq (nodes : Nodes) : valuesOf nodes = nodes.map fun e => (e.1, e.2.value) := by
  induction nodes with
  | nil => rfl
  | cons e rest ih => rw [valuesOf, ih, List.map_cons]

theorem table_keyed {nodes : Nodes} (distinct : (Entries.keys nodes).Nodup)
    (h : ∀ e ∈ nodes, e.2.value.Keyed) : (Value.table (valuesOf nodes)).Keyed := by
  rw [values_of_eq]
  refine .table ?_ fun e he => ?_
  · rwa [Entries.keys, List.map_map]
  · obtain ⟨d, hd, rfl⟩ := List.mem_map.mp he
    exact h d hd

theorem Node.Keyed.value {n : Node} (h : n.Keyed) : n.value.Keyed := by
  induction h with
  | leaf h => exact h
  | branch distinct _ ih => exact table_keyed distinct ih
  | series hfinished distinct _ ih =>
    refine .list fun v hv => ?_
    rcases List.mem_append.mp hv with hv | hv
    · exact hfinished v hv
    · exact List.mem_singleton.mp hv ▸ table_keyed distinct ih

namespace Nodes

theorem Keyed.values {nodes : Nodes} (h : nodes.Keyed) : (Value.table (valuesOf nodes)).Keyed :=
  table_keyed h.distinct fun e he => (h.each e he).value

theorem Keyed.nil : Keyed [] := ⟨List.nodup_nil, nofun⟩

theorem Keyed.insert {nodes : Nodes} (h : nodes.Keyed) (name : String) {n : Node} (hn : n.Keyed) :
    Keyed (Entries.insert nodes name n) where
  distinct := Entries.nodup_insert h.distinct name n
  each := fun e he => by
    rcases Entries.mem_insert he with rfl | he
    · exact hn
    · exact h.each e he

theorem Keyed.get {nodes : Nodes} (h : nodes.Keyed) {name : String} {n : Node}
    (hn : Entries.get? nodes name = some n) : n.Keyed :=
  h.each _ ((Entries.get_eq_some_iff h.distinct).mp hn)

theorem Keyed.branch {nodes : Nodes} (h : nodes.Keyed) (writer : Option Nat) :
    (Node.branch writer nodes).Keyed := .branch h.distinct h.each

theorem keyed_of_branch {writer : Option Nat} {entries : Nodes}
    (h : (Node.branch writer entries).Keyed) : entries.Keyed := by
  cases h with
  | branch distinct each => exact ⟨distinct, each⟩

theorem keyed_of_series {finished : List Value} {current : Nodes}
    (h : (Node.series finished current).Keyed) : (∀ v ∈ finished, v.Keyed) ∧ current.Keyed := by
  cases h with
  | series hfinished distinct each => exact ⟨hfinished, distinct, each⟩

/-- Work that keeps names distinct keeps them so at a path. -/
theorem at_keyed {enter : Option (Option Nat) → Option (Option Nat)} {work : Nodes → Option Nodes}
    (hwork : ∀ {nodes nodes'}, nodes.Keyed → work nodes = some nodes' → nodes'.Keyed)
    {path : List String} {nodes nodes' : Nodes} (h : nodes.Keyed)
    (hat : at? enter work path nodes = some nodes') : nodes'.Keyed := by
  induction path generalizing nodes nodes' with
  | nil => exact hwork h hat
  | cons name path ih =>
    unfold at? at hat
    -- The name is new, or that of a table, or of a series, of which the table begun last is entered.
    split at hat
    · simp only [Option.bind_eq_bind, Option.bind_eq_some_iff] at hat
      obtain ⟨writer, _, inner, hinner, hat⟩ := hat
      obtain rfl := Option.some.inj hat
      exact h.insert name ((ih .nil hinner).branch writer)
    · next hget =>
      simp only [Option.bind_eq_bind, Option.bind_eq_some_iff] at hat
      obtain ⟨writer, _, inner, hinner, hat⟩ := hat
      obtain rfl := Option.some.inj hat
      exact h.insert name ((ih (keyed_of_branch (h.get hget)) hinner).branch writer)
    · next hget =>
      split at hat
      · nomatch hat
      · simp only [Option.bind_eq_bind, Option.bind_eq_some_iff] at hat
        obtain ⟨inner, hinner, hat⟩ := hat
        obtain rfl := Option.some.inj hat
        obtain ⟨hfinished, hcurrent⟩ := keyed_of_series (h.get hget)
        have hinner := ih hcurrent hinner
        exact h.insert name (.series hfinished hinner.distinct hinner.each)
    · nomatch hat

theorem open_keyed {section_ : Nat} {path : List String} {nodes nodes' : Nodes} (h : nodes.Keyed)
    (hopen : openTable? section_ path nodes = some nodes') : nodes'.Keyed := by
  obtain ⟨⟨parent, name⟩, _, hat⟩ := Option.bind_eq_some_iff.mp hopen
  refine at_keyed (fun {entries entries'} hentries hwork => ?_) h hat
  split at hwork
  · obtain rfl := Option.some.inj hwork
    exact hentries.insert name (Keyed.nil.branch _)
  · next hget =>
    obtain rfl := Option.some.inj hwork
    exact hentries.insert name ((keyed_of_branch (hentries.get hget)).branch _)
  · nomatch hwork

theorem add_table_keyed {path : List String} {nodes nodes' : Nodes} (h : nodes.Keyed)
    (hadd : addTable? path nodes = some nodes') : nodes'.Keyed := by
  obtain ⟨⟨parent, name⟩, _, hat⟩ := Option.bind_eq_some_iff.mp hadd
  refine at_keyed (fun {entries entries'} hentries hwork => ?_) h hat
  split at hwork
  · obtain rfl := Option.some.inj hwork
    exact hentries.insert name (.series nofun List.nodup_nil nofun)
  · next hget =>
    obtain rfl := Option.some.inj hwork
    obtain ⟨hfinished, hcurrent⟩ := keyed_of_series (hentries.get hget)
    refine hentries.insert name (.series (fun v hv => ?_) List.nodup_nil nofun)
    rcases List.mem_append.mp hv with hv | hv
    · exact hfinished v hv
    · exact List.mem_singleton.mp hv ▸ hcurrent.values
  · nomatch hwork

theorem add_value_keyed {section_ : Nat} {header path : List String} {v : Value} (hv : v.Keyed)
    {nodes nodes' : Nodes} (h : nodes.Keyed)
    (hadd : addValue? section_ header path v nodes = some nodes') : nodes'.Keyed := by
  obtain ⟨⟨parent, name⟩, _, hat⟩ := Option.bind_eq_some_iff.mp hadd
  refine at_keyed (fun hentries hat => at_keyed (fun {entries entries'} hentries hwork => ?_)
    hentries hat) h hat
  split at hwork
  · obtain rfl := Option.some.inj hwork
    exact hentries.insert name (.leaf hv)
  · nomatch hwork

end Nodes

/-! ## Values of a text -/

theorem or_malformed_eq_ok {α : Type} {r : Option α} {a : α} : orMalformed r = .ok a ↔ r = some a := by
  cases r with
  | none => exact ⟨nofun, nofun⟩
  | some b => exact ⟨fun h => congrArg some (Except.ok.inj h), fun h => congrArg _ (Option.some.inj h)⟩

theorem word_plain {cs rest : List Char} {v : Value} (h : readWord? cs = some (v, rest)) :
    v.isPlain = true := by
  obtain ⟨e, he, heq⟩ := Option.map_eq_some_iff.mp h
  have hall : ∀ e ∈ words, e.2.isPlain = true := by decide
  cases heq
  exact hall e (List.mem_of_find?_eq_some he)

theorem moment_plain {cs rest : List Char} {v : Value} (h : readMoment? cs = some (v, rest)) :
    v.isPlain = true := by
  unfold readMoment? at h
  split at h
  · split at h
    · cases h
      rfl
    · split at h
      all_goals
        cases h
        rfl
  · obtain ⟨e, _, heq⟩ := Option.map_eq_some_iff.mp h
    cases heq
    rfl

theorem based_plain {cs rest : List Char} {v : Value} (h : readBased? cs = some (v, rest)) :
    v.isPlain = true := by
  unfold readBased? at h
  split at h
  · obtain ⟨⟨base, isDigit⟩, _, h⟩ := Option.bind_eq_some_iff.mp h
    simp only at h
    split at h
    · nomatch h
    · cases h
      rfl
  · nomatch h

theorem decimal_plain {cs rest : List Char} {v : Value} (h : readDecimal cs = .ok (v, rest)) :
    v.isPlain = true := by
  unfold readDecimal at h
  extract_lets negative body at h
  simp only at h
  split at h
  · nomatch h
  · split at h
    · split at h
      · nomatch h
      · cases h
        rfl
    · cases h
      rfl

theorem scalar_plain {cs rest : List Char} {v : Value} (h : readScalar cs = .ok (v, rest)) :
    v.isPlain = true := by
  unfold readScalar at h
  split at h
  · obtain ⟨e, _, heq⟩ := Option.map_eq_some_iff.mp (or_malformed_eq_ok.mp h)
    cases heq
    rfl
  · split at h
    · next r hr =>
      obtain rfl := Except.ok.inj h
      rcases Option.or_eq_some_iff.mp hr with hword | ⟨_, hr⟩
      · exact word_plain hword
      · rcases Option.or_eq_some_iff.mp hr with hmoment | ⟨_, hbased⟩
        · exact moment_plain hmoment
        · exact based_plain hbased
    · exact decimal_plain h

/-- A value that is read names the keys of its tables once. -/
theorem read_keyed (fuel : Nat) :
    (∀ {cs v rest}, readValue fuel cs = .ok (v, rest) → v.Keyed) ∧
      (∀ {cs items rest}, readItems fuel cs = .ok (items, rest) → ∀ v ∈ items, v.Keyed) ∧
      ∀ {nodes cs v rest}, Nodes.Keyed nodes → readPairs fuel nodes cs = .ok (v, rest) → v.Keyed := by
  -- The three readers call each other with less fuel.
  induction fuel with
  | zero => exact ⟨nofun, nofun, nofun⟩
  | succ fuel ih =>
    obtain ⟨hvalue, hitems, hpairs⟩ := ih
    refine ⟨fun {cs v rest} h => ?_, fun {cs items rest} h => ?_, fun {nodes cs v rest} hnodes h => ?_⟩
    · unfold readValue at h
      split at h
      · simp only [bind_eq_ok] at h
        obtain ⟨_, _, ⟨items, _⟩, hread, h⟩ := h
        cases h
        exact .list (hitems hread)
      · split at h
        · cases h
          exact Nodes.Keyed.nil.values
        · exact hpairs .nil h
      · exact .plain (scalar_plain h)
    · unfold readItems at h
      split at h
      · cases h
        exact nofun
      · simp only [bind_eq_ok] at h
        obtain ⟨⟨v, _⟩, hread, left, _, h⟩ := h
        split at h
        · cases h
          exact fun w hw => List.mem_singleton.mp hw ▸ hvalue hread
        · simp only [bind_eq_ok] at h
          obtain ⟨_, _, ⟨vs, _⟩, hrest, h⟩ := h
          cases h
          exact List.forall_mem_cons.mpr ⟨hvalue hread, hitems hrest⟩
        · nomatch h
    · unfold readPairs at h
      simp only [bind_eq_ok] at h
      obtain ⟨⟨path, _⟩, _, h⟩ := h
      split at h
      · simp only [bind_eq_ok] at h
        obtain ⟨⟨w, _⟩, hread, added, hadd, h⟩ := h
        have hadded := Nodes.add_value_keyed (hvalue hread) hnodes (or_malformed_eq_ok.mp hadd)
        split at h
        · cases h
          exact hadded.values
        · exact hpairs hadded h
        · nomatch h
      · nomatch h

/-! ## Texts -/

theorem statement_keyed {d d' : Document} {cs rest : List Char} (h : d.nodes.Keyed)
    (hread : readStatement d cs = .ok (d', rest)) : d'.nodes.Keyed := by
  unfold readStatement at hread
  split at hread
  · simp only [bind_eq_ok] at hread
    obtain ⟨⟨path, _⟩, _, d'', hadd, _, _, hread⟩ := hread
    obtain ⟨nodes, hnodes, rfl⟩ := Option.map_eq_some_iff.mp (or_malformed_eq_ok.mp hadd)
    cases hread
    exact Nodes.add_table_keyed h hnodes
  · simp only [bind_eq_ok] at hread
    obtain ⟨⟨path, _⟩, _, d'', hopen, _, _, hread⟩ := hread
    obtain ⟨nodes, hnodes, rfl⟩ := Option.map_eq_some_iff.mp (or_malformed_eq_ok.mp hopen)
    cases hread
    exact Nodes.open_keyed h hnodes
  · cases hread
    exact h
  · split at hread
    · cases hread
      exact h
    · simp only [bind_eq_ok] at hread
      obtain ⟨⟨path, _⟩, _, hread⟩ := hread
      split at hread
      · simp only [bind_eq_ok] at hread
        obtain ⟨⟨v, _⟩, hv, d'', hadd, hread⟩ := hread
        obtain ⟨nodes, hnodes, rfl⟩ := Option.map_eq_some_iff.mp (or_malformed_eq_ok.mp hadd)
        cases hread
        exact Nodes.add_value_keyed ((read_keyed _).1 hv) h hnodes
      · nomatch hread

theorem lines_keyed (fuel : Nat) {d d' : Document} {cs : List Char} (h : d.nodes.Keyed)
    (hread : readLines fuel d cs = .ok d') : d'.nodes.Keyed := by
  induction fuel generalizing d cs with
  | zero => exact Except.ok.inj hread ▸ h
  | succ fuel ih =>
    unfold readLines at hread
    simp only [bind_eq_ok] at hread
    obtain ⟨⟨next, _⟩, hstatement, rest, _, hread⟩ := hread
    have hnext := statement_keyed h hstatement
    split at hread
    · exact Except.ok.inj hread ▸ hnext
    · exact ih hnext hread
    · nomatch hread

theorem parse_keyed {text : String} {entries : Entries Value} (h : parse text = .ok entries) :
    (Value.table entries).Keyed := by
  obtain ⟨d, hread, rfl⟩ := map_eq_ok.mp h
  exact (lines_keyed _ Nodes.Keyed.nil hread).values

end Toml
end BacktestAudit.Data
