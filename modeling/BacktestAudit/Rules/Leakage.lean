import BacktestAudit.Rules.Match

/-!
Rules on data leakage: computations that mix the training and the evaluation range.
-/
namespace BacktestAudit.Rules
open BacktestAudit.Source BacktestAudit.Flow

/-- Statistics that leak when they are taken over the whole sample. -/
def globalStatistics : List String :=
  ["mean", "std", "var", "min", "max", "median", "quantile", "zscore", "nanmean", "nanstd"]

/-- Methods that make a statistic causal, or one of each group. -/
def windowMethods : List String := ["rolling", "expanding", "ewm", "resample", "groupby"]

def fitMethods : List String := ["fit", "fit_transform", "partial_fit"]

/-- The datasets among columns that cover both ranges. -/
def leaked (ctx : Context) (columns : List Column) : List String :=
  sortedNames ((columns.map Column.frame).filter (· ∈ ctx.spanning))

def globalStatisticMatches (ctx : Context) (g : Graph) : List Match :=
  g.calls.filterMap fun c =>
    if c.method ∈ globalStatistics && !c.receiverChain.any (· ∈ windowMethods) then
      match leaked ctx c.dataReads with
      | [] => none
      | frames =>
        let names := ", ".intercalate frames
        some {
          place := c.lines
          message := s!"{c.method}() over {names} mixes the training and evaluation ranges; " ++
            "compute it on the training slice only"
          edits := [] }
    else none

def fitMatches (ctx : Context) (g : Graph) : List Match :=
  g.calls.filterMap fun c =>
    if c.method ∈ fitMethods && !c.isFunction then
      match leaked ctx c.argReads with
      | [] => none
      | frames =>
        let names := ", ".intercalate frames
        some {
          place := c.lines
          message := s!"{c.method}() sees {names}, which covers the evaluation range; " ++
            "fit on the training split"
          edits := [] }
    else none

end BacktestAudit.Rules
