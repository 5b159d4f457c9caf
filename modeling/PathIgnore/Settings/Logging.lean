import PathIgnore.Settings.Basic

/-!
# How reports are written

The plan for writing reports that follows from the settings: the least level, where the lines go, and
the steps that an event passes on its way to a line.
-/

namespace PathIgnore

/-- A step that an event passes. -/
inductive LogStep where
  | filterByLevel
  | addLevel
  | addLoggerName
  | addTime
  | addStack
  | addException
  | renderJson
  | renderConsole
  deriving DecidableEq, Repr

/-- How reports are written. -/
structure LoggingPlan where
  /-- The weight of the least level that is reported. -/
  level : Nat
  /-- The form of a line around its message. -/
  format : String
  /-- Whether lines go to the error output. -/
  toErrorOutput : Bool
  /-- The steps, in order. -/
  steps : List LogStep
  deriving DecidableEq, Repr

/-- What of the settings bears on the plan. A source may supply each part as any value, or not at
all. -/
structure LoggingSource where
  logLevel : Option Value
  debugLog : Option Value
  logJson : Option Value

/-- Anything but nothing asks for debugging. -/
def LoggingSource.debugging (s : LoggingSource) : Bool := s.debugLog.any (!·.isEmpty)

/-- Why there is no plan. -/
inductive LoggingFault where
  /-- The name of the level is an integer, or holds one, that is too long to be written. -/
  | longInteger
  /-- The name stands for something that is no level. -/
  | noLevel (name : Text)
  deriving DecidableEq, Repr

namespace LoggingPlan

/-- The levels by name. -/
def levels : List (Text × Nat) :=
  [("CRITICAL", 50), ("FATAL", 50), ("ERROR", 40), ("WARNING", 30), ("WARN", 30), ("INFO", 20),
    ("DEBUG", 10), ("NOTSET", 0)].map fun (name, level) => (name.toList, level)

/-- Names in upper case that stand for something else than a level. -/
def otherNames : List Text := ["BASIC_FORMAT", "_STYLES"].map String.toList

/-- The level of INFO, which also stands for unknown names. -/
def infoLevel : Nat := 20

/-- The level of DEBUG. -/
def debugLevel : Nat := 10

/-- The upper case of a character as far as it is made of ASCII letters. Beyond ASCII the dotless i and the
long s have such an upper case, and of the ligatures those of s and t may occur in a name. -/
def upperCase (c : Char) : Text :=
  if c = 'ı' then ['I']
  else if c = 'ſ' then ['S']
  else if c = '\uFB05' ∨ c = '\uFB06' then ['S', 'T']
  else [c.toUpper]

/-- The level that a name means, in any mixture of cases. -/
def levelOfName (name : Text) : Except LoggingFault Nat :=
  let name := name.flatMap upperCase
  if name ∈ otherNames then .error (.noLevel name) else .ok ((levels.lookup name).getD infoLevel)

/-- The name of the level that is asked for; what counts as nothing asks for INFO. -/
def levelName? (v? : Option Value) : Option Text :=
  match v? with
  | some v => if v.isEmpty then some "INFO".toList else v.display?
  | none => some "INFO".toList

/-- The steps before an event is rendered. -/
def commonSteps : List LogStep :=
  [.filterByLevel, .addLevel, .addLoggerName, .addTime, .addStack, .addException]

/-- The least level that a source asks for. Its name is written out even where debugging decides it. -/
def levelOf (s : LoggingSource) : Except LoggingFault Nat :=
  match levelName? s.logLevel with
  | none => .error .longInteger
  | some name => if s.debugging then .ok debugLevel else levelOfName name

/-- The plan that reports from this level on. Anything but nothing asks for JSON, and JSON is the default. -/
def withLevel (s : LoggingSource) (level : Nat) : LoggingPlan where
  level
  format := "%(message)s"
  toErrorOutput := true
  steps := commonSteps ++ [if s.logJson.all (!·.isEmpty) then .renderJson else .renderConsole]

/-- The plan for a source. -/
def ofSource (s : LoggingSource) : Except LoggingFault LoggingPlan := (levelOf s).map (withLevel s)

/-- The plan for settings. -/
def ofDiagnostics (d : Diagnostics) : Except LoggingFault LoggingPlan :=
  ofSource ⟨some (.text d.logLevel), some (.bool d.debugLog), some (.bool d.logJson)⟩

/-- The plan for an object that may lack any part. -/
def ofFields (fields : List (Text × Value)) : Except LoggingFault LoggingPlan :=
  ofSource ⟨Value.field? "LOG_LEVEL".toList fields, Value.field? "DEBUG_LOG".toList fields,
    Value.field? "LOG_JSON".toList fields⟩

end LoggingPlan

end PathIgnore
