import BacktestAudit.Settings.Field

/-!
Thresholds and tuning of the statistical checks.
-/
namespace BacktestAudit
open BacktestAudit.Data BacktestAudit.Decimal Settings

/-- The least statistic by the number of trials from which on it applies. -/
abbrev Brackets := List (Int × Float)

/-- Settings of the statistical checks. Fields that are checked when they are given are numbers; the
others are kept as they are given. -/
structure StatisticsSettings where
  thresholds : Brackets
  minObservations : Number
  deflatedPass : Number
  sharpeTrigger : Value
  sharpeVariance : Option Number
  blocks : Number
  maxExactBlocks : Value
  maxSampled : Number
  seed : Value
  batchSize : Number
  overfitPass : Number
  flagSharpe : Value
  flagTotalReturn : Value
  flagDrawdown : Value
  flagWinRate : Value

namespace StatisticsSettings

/-! ## Brackets -/

def setBracket : Brackets → Int → Float → Brackets
  | [], k, x => [(k, x)]
  | (l, y) :: rest, k, x =>
    if k < l then (k, x) :: (l, y) :: rest
    else if k = l then (k, x) :: rest
    else (l, y) :: setBracket rest k x

/-- Whether thresholds never fall as the number of trials grows. -/
def isMonotone : Brackets → Bool
  | (_, x) :: (l, y) :: rest =>
    !(Extended.ofFloat y).lt (Extended.ofFloat x) && isMonotone ((l, y) :: rest)
  | _ => true

def sameKey (a b : Value) : Bool :=
  match a, b with
  | .null, .null => true
  | .text s, .text t => s = t
  | a, b =>
    match a.number?, b.number? with
    | some m, some n => m.toExtended.same n.toExtended
    | _, _ => false

def setPair : List (Value × Value) → Value × Value → List (Value × Value)
  | [], e => [e]
  | (k, v) :: rest, (key, value) =>
    if sameKey k key then (k, value) :: rest else (k, v) :: setPair rest (key, value)

/-- The two items of a pair: of a list, of the characters of a text, or of the keys of a table. -/
def pair? (v : Value) : Option (Value × Value) :=
  let two (items : List Value) : Option (Value × Value) :=
    match items with
    | [a, b] => some (a, b)
    | _ => none
  match v with
  | .list items => two items
  | .text s => two (s.toList.map fun c => .text (String.singleton c))
  | .table entries => two (entries.map fun e => .text e.1)
  | _ => none

def canBeKey : Value → Bool
  | .list _ | .table _ => false
  | _ => true

def items? : Value → Option (List Value)
  | .list items => some items
  | .text s => some (s.toList.map fun c => .text (String.singleton c))
  | _ => none

def mapping? (v : Value) : Option (List (Value × Value)) :=
  match v with
  | .table entries => some (entries.map fun e => (.text e.1, e.2))
  | v => do
    let pairs ← (← items? v).mapM pair?
    if pairs.all fun e => canBeKey e.1 then return pairs.foldl setPair [] else none

def bracketReason : String := "tstat_thresholds must map integers to floats"

/-- A number of trials; a double is cut to an integer. -/
def bracketKey (v : Value) : Except SettingsFault Int :=
  match v with
  | .text s =>
    match readInt? s with
    | some n => .ok n
    | none => .error (.refused bracketReason)
  | v =>
    match v.number? with
    | some (.float x) =>
      match Binary64.ofFloat x with
      | .finite negative m e =>
        let (num, den) := Binary64.scaled m e
        .ok (if negative then -(num / den : Nat) else (num / den : Nat))
      | .infinite _ => .error .outOfRange
      | .nan => .error (.refused bracketReason)
    | some n =>
      match n.toInt? with
      | some k => .ok k
      | none => .error (.refused bracketReason)
    | none => .error (.refused bracketReason)

def bracketValue (v : Value) : Except SettingsFault Float :=
  match v with
  | .text s =>
    match readFloat? s with
    | some x => .ok x
    | none => .error (.refused bracketReason)
  | v =>
    match v.number? with
    | some n =>
      match n.toFloat? with
      | some x => .ok x
      | none => .error .outOfRange
    | none => .error (.refused bracketReason)

/-- The brackets that a value gives. One of them is for a single trial, and none is lower than the
one before it. -/
def brackets (v : Value) : Except SettingsFault Brackets := do
  let pairs ← match mapping? v with
    | some ps => pure ps
    | none => throw (.refused bracketReason)
  let numbers ← pairs.mapM fun (k, x) => do return (← bracketKey k, ← bracketValue x)
  let table := numbers.foldl (fun t (k, x) => setBracket t k x) []
  if table.all (·.1 ≠ 1) then
    throw (.refused "tstat_thresholds must define the bracket for 1 trial")
  if !isMonotone table then
    throw (.refused "tstat_thresholds must be non-decreasing in trial count")
  return table

def standardBrackets : Brackets := [(1, 2.0), (10, 2.5), (100, 3.0), (1000, 3.78)]

/-! ## Fields -/

def sectionName : String := "StatisticsConfig"

/-- The fields with their standard values; the brackets are not among them. -/
def standardFields : Entries Value :=
  [("dsr_min_observations", .int 20), ("dsr_pass_threshold", .float 0.95),
   ("dsr_sharpe_trigger", .float 1.5), ("sharpe_variance", .null), ("pbo_blocks", .int 16),
   ("pbo_max_exact_blocks", .int 20), ("pbo_max_sampled_combinations", .int 2000),
   ("pbo_seed", .int 42), ("pbo_batch_size", .int 256), ("pbo_pass_threshold", .float 0.05),
   ("red_flag_sharpe", .float 2.0), ("red_flag_total_return", .float 0.50),
   ("red_flag_drawdown", .float 0.10), ("red_flag_win_rate", .float 0.70)]

def fields : List String := "tstat_thresholds" :: Entries.keys standardFields

def isAtLeast (bound : Int) (n : Number) : Bool := !n.lt (.int bound)

def isShare (n : Number) : Bool := (Number.int 0).le n && n.le (.int 1)

def isPositive (n : Number) : Bool := !n.le (.int 0)

def isEven (n : Number) : Bool :=
  match n.toExtended with
  | .ratio num den => num % (2 * den) = 0
  | _ => false

def bracketsOf (entries : Entries Value) : Except SettingsFault Brackets :=
  match Entries.get? entries "tstat_thresholds" with
  | some v => brackets v
  | none => .ok standardBrackets

def checkedOptional (v : Value) (condition : Number → Bool) (reason : String) :
    Except SettingsFault (Option Number) :=
  match v with
  | .null => .ok none
  | v => some <$> checkedNumber v condition reason

/-- The settings that entries give; fields are checked in a fixed order. -/
def ofEntries (entries : Entries Value) : Except SettingsFault StatisticsSettings := do
  checkFields sectionName fields entries
  let value (name : String) : Value := field entries name ((Entries.get? standardFields name).getD .null)
  let thresholds ← bracketsOf entries
  let minObservations ← checkedNumber (value "dsr_min_observations") (isAtLeast 3)
    "dsr_min_observations must be at least 3"
  let deflatedPass ← checkedNumber (value "dsr_pass_threshold") isShare
    "dsr_pass_threshold must be between 0.0 and 1.0"
  let sharpeVariance ← checkedOptional (value "sharpe_variance") isPositive
    "sharpe_variance must be positive"
  let blocks ← checkedNumber (value "pbo_blocks") (fun n => isAtLeast 2 n && isEven n)
    "pbo_blocks must be an even number >= 2"
  let maxSampled ← checkedNumber (value "pbo_max_sampled_combinations") (isAtLeast 1)
    "pbo_max_sampled_combinations must be at least 1"
  let batchSize ← checkedNumber (value "pbo_batch_size") (isAtLeast 1)
    "pbo_batch_size must be at least 1"
  let overfitPass ← checkedNumber (value "pbo_pass_threshold") isShare
    "pbo_pass_threshold must be between 0.0 and 1.0"
  return {
    thresholds, minObservations, deflatedPass, sharpeVariance, blocks, maxSampled, batchSize
    overfitPass
    sharpeTrigger := value "dsr_sharpe_trigger"
    maxExactBlocks := value "pbo_max_exact_blocks"
    seed := value "pbo_seed"
    flagSharpe := value "red_flag_sharpe"
    flagTotalReturn := value "red_flag_total_return"
    flagDrawdown := value "red_flag_drawdown"
    flagWinRate := value "red_flag_win_rate" }

def standard : StatisticsSettings where
  thresholds := standardBrackets
  minObservations := .int 20
  deflatedPass := .float 0.95
  sharpeTrigger := .float 1.5
  sharpeVariance := none
  blocks := .int 16
  maxExactBlocks := .int 20
  maxSampled := .int 2000
  seed := .int 42
  batchSize := .int 256
  overfitPass := .float 0.05
  flagSharpe := .float 2.0
  flagTotalReturn := .float 0.50
  flagDrawdown := .float 0.10
  flagWinRate := .float 0.70

end StatisticsSettings
end BacktestAudit
