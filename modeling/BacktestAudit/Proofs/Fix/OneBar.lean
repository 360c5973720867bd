import BacktestAudit.Proofs.Fix.Outcome
import BacktestAudit.Proofs.Flow.LaggedStep
import BacktestAudit.Proofs.Rules.LaggedReports

/-!
Positions whose signals are shifted by a fix. A fix that stands has removed its finding, so when the
new text is read as the same program with some reads of the statement lagged, every signal that was
reported is lagged by exactly one bar there. A key in a list of columns is no such read: it stands
for the column only as a text, and a shift behind it makes the subscript one of the whole frame.
-/
namespace BacktestAudit.Fix
open BacktestAudit.Source BacktestAudit.Syntax BacktestAudit.Flow BacktestAudit.Rules
set_option autoImplicit false

/-! ## Fixes that shift signals -/

theorem mapM_eq_none {α β : Type} {f : α → Option β} {as : List α} (h : ∃ a ∈ as, f a = none) :
    as.mapM f = none := by
  induction as with
  | nil =>
    obtain ⟨_, ha, _⟩ := h
    nomatch ha
  | cons b bs ih =>
    rw [List.mapM_cons]
    cases hb : f b with
    | none => rfl
    | some c =>
      obtain ⟨a, ha, hnone⟩ := h
      rcases List.mem_cons.mp ha with rfl | ha
      · rw [hb] at hnone
        nomatch hnone
      · rw [ih ⟨a, ha, hnone⟩]
        rfl

theorem scan_constant_keys {imported : List String} (shift : Shift) {keys : List Expr}
    (h : ∀ k ∈ keys, ∃ x v, k = .constant x v ∨ k = lagByOne (.constant x v)) :
    (scanAll imported shift keys).reads = [] := by
  induction keys with
  | nil => rfl
  | cons k keys ih =>
    obtain ⟨⟨x, v, hk⟩, hkeys⟩ := List.forall_mem_cons.mp h
    rw [scanAll, Trace.reads_append, ih hkeys]
    rcases hk with rfl | rfl <;> rfl

/-- A frame that is subscripted by keys of which one is shifted is read itself; none of the columns
that the keys name is. -/
theorem shifted_key_reads_frame {imported : List String} {dataset : String}
    (himp : dataset ∉ imported) {index : Expr} {keys : List Expr}
    (hindex : elements? index = some keys)
    (hkeys : ∀ k ∈ keys, ∃ x v, k = .constant x v ∨ k = lagByOne (.constant x v))
    (hshifted : ∃ k ∈ keys, ∃ x v, k = lagByOne (.constant x v)) (shift : Shift) (x y : Extent) :
    (scan imported shift (.subscript x (.name y dataset .read) index)).reads =
      [⟨.ofVariable dataset, shift, y⟩] := by
  have hindexReads : (scan imported (some 0) index).reads = [] := by
    rw [← scan_constant_keys (some 0) hkeys]
    cases index with
    | tuple z es | list z es =>
      obtain rfl := Option.some.inj hindex
      rfl
    | _ => nomatch hindex
  have hc : columnOf? imported (.name y dataset .read) index = none := by
    cases index with
    | tuple z es | list z es => rfl
    | _ => nomatch hindex
  have hk : keyColumns? (.name y dataset .read) index = none := by
    rw [key_columns_name, hindex, Option.bind_some]
    split
    · rfl
    · obtain ⟨k, hmem, z, v, rfl⟩ := hshifted
      exact mapM_eq_none ⟨_, hmem, rfl⟩
  rw [scan_parts hc hk, Trace.reads_append, Trace.reads_append, hindexReads, scan,
    if_pos ⟨rfl, himp⟩]
  rfl

end BacktestAudit.Fix
