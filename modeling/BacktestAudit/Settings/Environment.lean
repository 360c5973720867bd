import BacktestAudit.Data.Number
import BacktestAudit.Settings.Statistics
import BacktestAudit.Text.Lower

/-!
Settings from environment variables. A variable is named after its field, and its text is read as
the kind of the field asks; fields that are too complex for a variable are left out.
-/
namespace BacktestAudit.Settings
open BacktestAudit.Data BacktestAudit.Text

inductive VariableKind where
  | truth
  | integer
  | double
  | words
  | text
  /-- No text is read as one. -/
  | complex
  deriving DecidableEq, Repr

def splitAtCommas (cs : List Char) : List (List Char) :=
  match cs with
  | [] => [[]]
  | c :: rest =>
    match splitAtCommas rest with
    | [] => [[c]]
    | part :: parts => if c = ',' then [] :: part :: parts else (c :: part) :: parts

/-- The parts between commas that are not blank, without the blanks around them. -/
def wordsOf (s : String) : List String :=
  ((splitAtCommas s.toList).map strip).filter (!·.isEmpty) |>.map String.ofList

def truthOf? (s : String) : Option Bool :=
  let word := lower s
  if word ∈ ["true", "1", "yes", "on"] then some true
  else if word ∈ ["false", "0", "no", "off"] then some false
  else none

structure Unreadable where
  deriving DecidableEq, Repr

def readable (v? : Option Value) : Except Unreadable (Option Value) :=
  match v? with
  | some v => .ok (some v)
  | none => .error {}

def readVariable (kind : VariableKind) (s : String) : Except Unreadable (Option Value) :=
  match kind with
  | .truth => readable ((truthOf? s).map Value.bool)
  | .integer => readable ((readInt? s).map Value.int)
  | .double => readable ((readFloat? s).map Value.float)
  | .words => .ok (some (.list ((wordsOf s).map Value.text)))
  | .text => .ok (some (.text s))
  | .complex => .ok none

/-! ## Fields -/

def namePrefix : String := "QUANTGUARD_"

def variableName (section_ field : String) : String :=
  namePrefix ++ (if section_.isEmpty then "" else section_.toUpper ++ "_") ++ field.toUpper

def topKinds : List (String × VariableKind) :=
  [("workers", .integer), ("disabled_rules", .words), ("patterns", .complex),
   ("statistics", .complex)]

/-- The kind of a field of the statistics section, told by its standard value. -/
def kindOfStandard : Value → VariableKind
  | .int _ => .integer
  | .float _ | .null => .double
  | _ => .complex

def statisticsKinds : List (String × VariableKind) :=
  ("tstat_thresholds", .complex) ::
    StatisticsSettings.standardFields.map fun (name, v) => (name, kindOfStandard v)

def variableNames : List String :=
  topKinds.map (fun e => variableName "" e.1) ++
    statisticsKinds.map (fun e => variableName "statistics" e.1)

/-- The values that variables give to the fields of a section, or the name of the first variable
that cannot be read. -/
def readSection (environment : Entries String) (section_ : String) :
    List (String × VariableKind) → Except String (Entries Value)
  | [] => .ok []
  | (field, kind) :: rest =>
    let name := variableName section_ field
    match Entries.get? environment name with
    | none => readSection environment section_ rest
    | some s =>
      match readVariable kind s with
      | .error _ => .error name
      | .ok none => readSection environment section_ rest
      | .ok (some v) => do return (field, v) :: (← readSection environment section_ rest)

def ofVariables (environment : Entries String) : Except String (Entries Value) := do
  let top ← readSection environment "" topKinds
  let statistics ← readSection environment "statistics" statisticsKinds
  return if statistics.isEmpty then top else top ++ [("statistics", .table statistics)]

end BacktestAudit.Settings
