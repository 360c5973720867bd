import BacktestAudit.Proofs.Flow.Followed
import BacktestAudit.Proofs.Rules.Reported
import BacktestAudit.Proofs.Syntax.Parsed

/-!
Which calls a graph records and which of them are reported as code that runs text. Every call of a
unit is recorded but for those in targets, type hints and signatures, which nothing scans.
-/
namespace BacktestAudit.Rules
open BacktestAudit.Data.Outcome BacktestAudit.Syntax BacktestAudit.Flow BacktestAudit.Source
set_option autoImplicit false

def runsText : Expr → Bool
  | .call _ (.name _ id _) _ => id ∈ runners
  | _ => false

theorem exists_dynamic_call {g : Graph} {site : CallSite} (hsite : site ∈ g.calls)
    (h : (site.isFunction && site.method ∈ runners && site.receiverChain.isEmpty) = true) :
    ∃ m ∈ dynamicCalls g, m.place = site.lines :=
  ⟨_, List.mem_filterMap.mpr ⟨site, hsite, if_pos h⟩, rfl⟩

theorem dynamic_call_of_records {imported : List String} {g : Graph} {site : CallSite} {c : Expr}
    (hsite : site ∈ g.calls) (h : Records imported site c) (hruns : runsText c = true) :
    ∃ m ∈ dynamicCalls g, m.place = c.lines := by
  cases h with
  | intro x func arguments receiverReads argReads assignment =>
    cases func with
    | name y id role =>
      have hid : id ∈ runners := of_decide_eq_true hruns
      exact exists_dynamic_call hsite (by simp [callSite, calledName, isFunctionCall, receiver?, hid])
    | _ => cases hruns

/-- What runs text and is scanned is reported, if the rule is active. -/
theorem reported_of_scanned {s : Settings} {unit : SourceUnit} {fs : List Finding}
    (hfs : analyze s unit = .ok fs) (hactive : Rule.dynamicCode.code ∉ s.disabledRules) {c : Expr}
    (hc : c ∈ (scanned unit).flatMap Expr.calls) (hruns : runsText c = true) :
    ∃ f ∈ fs, f.key = ⟨Rule.dynamicCode.code, c.lines⟩ := by
  obtain ⟨site, hsite, hrecords⟩ := exists_left_of_mem (unit_records unit) hc
  obtain ⟨m, hm, hplace⟩ := dynamic_call_of_records hsite hrecords hruns
  refine (analyze_keys hfs).mpr ⟨.dynamicCode, Rule.mem_active.mpr hactive, _, rfl, m, hm, ?_⟩
  rw [hplace]

/-- The calls of a program: each of them is passed over or scanned. Those that are scanned are
recorded one by one in their order, and what runs text among them is reported. Nothing is recorded
with the span of a call that is passed over; with that of a call that is scanned there is one record,
unless a value is taken both as a whole and apart. -/
theorem calls_recorded_and_reported {text name : String} {unit : SourceUnit}
    (h : SourceUnit.parse text name = .ok unit) :
    let calls := (Stmt.expressionsOfAll unit.statements).flatMap Expr.calls
    let passed := (passedOverOfAll unit.statements).flatMap Expr.calls
    let followed := (scanned unit).flatMap Expr.calls
    let graph := Graph.ofUnit unit
    let imported := Stmt.definedNamesOfAll unit.statements
    (∀ c, c ∈ calls ↔ c ∈ passed ∨ c ∈ followed) ∧
      List.Forall₂ (Records imported) graph.calls followed ∧
      (∀ c ∈ passed, sitesOf graph c = []) ∧
      ((∀ s ∈ Stmt.stepsOfAll unit.statements, Alike s) →
        ∀ c ∈ followed, ∃ site, sitesOf graph c = [site] ∧ Records imported site c) ∧
      ∀ s fs, analyze s unit = .ok fs → Rule.dynamicCode.code ∉ s.disabledRules →
        ∀ c ∈ followed, runsText c = true →
          ∃ f ∈ fs, f.key = ⟨Rule.dynamicCode.code, c.lines⟩ := by
  intro calls passed followed graph imported
  have hproper := SourceUnit.statements_proper h
  exact ⟨fun c => mem_calls_of_unit hproper, unit_records unit, fun c hc => sites_of_passed_over h hc,
    fun halike c hc => sites_of_scanned h halike hc,
    fun s fs hfs hactive c hc hruns => reported_of_scanned hfs hactive hc hruns⟩

/-- Code runs text in a value, in an argument and in a part of a value. -/
def evaluatedText : String :=
  "y = eval(\"a\") + f(exec(\"b\"))\nif g():\n    a, b = h(), eval(\"c\")\n"

theorem evaluated_calls_recorded_and_reported :
    ∃ unit, SourceUnit.parse evaluatedText "evaluated" = .ok unit ∧
      (Graph.ofUnit unit).calls.map (·.method) = ["eval", "exec", "f", "g", "h", "eval"] ∧
      (∀ c ∈ (scanned unit).flatMap Expr.calls, (sitesOf (Graph.ofUnit unit) c).length = 1) ∧
      ∃ fs, analyze .standard unit = .ok fs ∧ ∃ f ∈ fs, f.key = ⟨"SEC001", ⟨3, 3⟩⟩ := by
  have hfacts : SourceUnit.parsesTo evaluatedText "evaluated" (fun unit => decide
      ((Graph.ofUnit unit).calls.map (·.method) = ["eval", "exec", "f", "g", "h", "eval"] ∧
        (∀ s ∈ Stmt.stepsOfAll unit.statements, Alike s) ∧
        (analyze .standard unit).toOption.isSome = true ∧
        ∃ c ∈ (scanned unit).flatMap Expr.calls, runsText c = true ∧ c.lines = ⟨3, 3⟩)) = true := by
    decide +kernel
  obtain ⟨unit, hparse, hunit⟩ := SourceUnit.parses_to_iff.mp hfacts
  obtain ⟨hmethods, halike, hanalysis, c, hc, hruns, hlines⟩ := of_decide_eq_true hunit
  obtain ⟨_, _, _, hone, hreported⟩ := calls_recorded_and_reported hparse
  have hsites : ∀ c ∈ (scanned unit).flatMap Expr.calls,
      (sitesOf (Graph.ofUnit unit) c).length = 1 := by
    intro c hc
    obtain ⟨site, hsite, _⟩ := hone halike c hc
    rw [hsite]
    rfl
  cases hfs : analyze .standard unit with
  | error a =>
    rw [hfs] at hanalysis
    cases hanalysis
  | ok fs =>
    obtain ⟨f, hf, hkey⟩ := hreported .standard fs hfs (by decide) c hc hruns
    exact ⟨unit, hparse, hmethods, hsites, fs, hfs, f, hf, hlines ▸ hkey⟩

/-- Code runs text in the subscript of a target. -/
def hiddenText : String := "x[eval(\"i\")] = 1\n"

/-- A call in a target is neither recorded nor reported. -/
theorem call_in_target_escapes :
    ∃ unit, SourceUnit.parse hiddenText "hidden" = .ok unit ∧
      (∃ c ∈ (Stmt.expressionsOfAll unit.statements).flatMap Expr.calls, runsText c = true) ∧
      (Graph.ofUnit unit).calls.length = 0 ∧ (analyze .standard unit).toOption = some [] := by
  have hfacts : SourceUnit.parsesTo hiddenText "hidden" (fun unit => decide
      ((∃ c ∈ (Stmt.expressionsOfAll unit.statements).flatMap Expr.calls, runsText c = true) ∧
        (Graph.ofUnit unit).calls.length = 0 ∧
        (analyze .standard unit).toOption = some [])) = true := by
    decide +kernel
  obtain ⟨unit, hparse, hunit⟩ := SourceUnit.parses_to_iff.mp hfacts
  exact ⟨unit, hparse, of_decide_eq_true hunit⟩

end BacktestAudit.Rules
