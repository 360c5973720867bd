import BacktestAudit.Data.Moment

/-!
Plain data as it is exchanged: what a metrics file, a configuration file or a caller can hold. The
entries of a table keep the order in which their keys first came.
-/
namespace BacktestAudit.Data

inductive Value where
  | null
  | bool (b : Bool)
  | int (n : Int)
  | float (x : Float)
  | text (s : String)
  | list (items : List Value)
  | table (entries : List (String × Value))
  | moment (m : Moment)
  deriving Inhabited

/-- Entries by key, in the order in which the keys first came. -/
abbrev Entries (α : Type) := List (String × α)

namespace Entries

def get? (entries : Entries α) (key : String) : Option α := entries.lookup key

/-- Replaces the value of a key in its place, or adds the key at the end. -/
def insert : Entries α → String → α → Entries α
  | [], key, value => [(key, value)]
  | (k, v) :: rest, key, value =>
    if k = key then (key, value) :: rest else (k, v) :: insert rest key value

def erase (entries : Entries α) (key : String) : Entries α :=
  entries.filter (·.1 ≠ key)

def keys (entries : Entries α) : List String := entries.map (·.1)

/-- Adds the entries of another table, which win. -/
def override (entries other : Entries α) : Entries α :=
  other.foldl (fun acc (k, v) => insert acc k v) entries

def ofPairs (pairs : List (String × α)) : Entries α := override [] pairs

@[simp] theorem get_insert (entries : Entries α) (key other : String) (value : α) :
    get? (insert entries key value) other = if other = key then some value else get? entries other := by
  induction entries with
  | nil =>
    by_cases h : other = key
    · subst h; simp [insert, get?]
    · have hb : (other == key) = false := by simpa using h
      simp [insert, get?, List.lookup_cons, h, hb]
  | cons e rest ih =>
    obtain ⟨k, v⟩ := e
    unfold get? at ih ⊢
    by_cases hk : k = key
    · subst hk
      by_cases h : other = k
      · subst h; simp [insert]
      · have : (other == k) = false := by simpa using h
        simp [insert, List.lookup_cons, this, h]
    · by_cases h : other = k
      · subst h
        simp [insert, hk]
      · have hb : (other == k) = false := by simpa using h
        simp only [insert, if_neg hk, List.lookup_cons, hb, ih]

theorem get_override (entries other : Entries α) (key : String) :
    get? (override entries other) key = (get? other.reverse key).or (get? entries key) := by
  induction other generalizing entries with
  | nil => simp [override, get?]
  | cons e rest ih =>
    obtain ⟨k, v⟩ := e
    have step : override entries ((k, v) :: rest) = override (insert entries k v) rest := rfl
    rw [step, ih, get_insert]
    unfold get?
    rw [List.reverse_cons, List.lookup_append]
    by_cases h : key = k
    · subst h; simp
    · have hb : (key == k) = false := by simpa using h
      simp [List.lookup_cons, h, hb]

end Entries

namespace Value

def isTable : Value → Bool
  | table _ => true
  | _ => false

end Value
end BacktestAudit.Data
