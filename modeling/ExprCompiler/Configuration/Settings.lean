import ExprCompiler.Configuration.TablesFile

/-!
# Settings

What the environment says about a service. A variable is looked up under the service's own name
first and then without it; one that is set to nothing counts as set.
-/

namespace ExprCompiler.Configuration

/-- Where a service listens, how it logs and how it compiles. -/
structure Settings where
  port : Int := 8080
  host : String := ""
  logLevel : String := "info"
  logDevelopment : Bool := false
  backend : String := "interpreter"
  samples : Int := 200
  /-- A file of tables, if not empty. -/
  tables : String := ""

inductive SettingsError where
  /-- A variable whose value is of another type. -/
  | badVariable (key field value type detail : String)
  | sampleCount (n : Int)
  | unknownBackend (name : String)
  | unreadableFile (path : String)
  | tables (cause : TablesError)

def SettingsError.message : SettingsError → String
  | .badVariable key field value type detail =>
    "failed to load config: envconfig.Process: assigning " ++ key ++ " to " ++ field ++
      ": converting '" ++ value ++ "' to type " ++ type ++ ". details: " ++ detail
  | .sampleCount n => s!"invalid sample count {n}"
  | .unknownBackend name => "unknown backend " ++ Text.quote name
  | .unreadableFile path => "reading tables: open " ++ path ++ ": no such file or directory"
  | .tables cause => cause.message

/-- The words for the truth values. -/
def readBool? (s : String) : Option Bool :=
  if ["1", "t", "T", "TRUE", "true", "True"].contains s then some true
  else if ["0", "f", "F", "FALSE", "false", "False"].contains s then some false
  else none

/-- The variables of an environment. -/
abbrev Environment := Table String

namespace Environment

/-- The name of the service in front of its variables. -/
def serviceName : String := "LAMBDIFY"

def key (name : String) : String := serviceName ++ "_" ++ name

def find? (env : Environment) (name : String) : Option String :=
  match Table.get? env (key name) with
  | some v => some v
  | none => Table.get? env name

def detail (reader value : String) (e : Numeral.ReadError) : String :=
  let what :=
    match e with
    | .malformed => "invalid syntax"
    | .outOfRange => "value out of range"
  "strconv." ++ reader ++ ": parsing " ++ Text.quote value ++ ": " ++ what

def text (env : Environment) (name fallback : String) : String := (env.find? name).getD fallback

def int (env : Environment) (name field : String) (fallback : Int) : Except SettingsError Int :=
  match env.find? name with
  | none => .ok fallback
  | some v =>
    (Numeral.readInt v).mapError fun e ↦
      .badVariable (key name) field v "int" (detail "ParseInt" v e)

def bool (env : Environment) (name field : String) (fallback : Bool) : Except SettingsError Bool :=
  match env.find? name with
  | none => .ok fallback
  | some v =>
    match readBool? v with
    | some b => .ok b
    | none => .error (.badVariable (key name) field v "bool" (detail "ParseBool" v .malformed))

end Environment

/-- The backend of a name. -/
def backendOf (name : String) : Except SettingsError Backend :=
  if name == "" || name == "interpreter" then .ok Interpreter.backend
  else if name == "javascript" || name == "js" then .ok Script.backend
  else .error (.unknownBackend name)

namespace Settings

/-- The variables that settings are read from, without the name of the service. -/
def variableNames : List String :=
  ["PORT", "HOST", "LOG_LEVEL", "LOG_DEV", "BACKEND", "SAMPLES", "TABLES"]

/-- Reads the settings from an environment, in the order of the fields. -/
def load (env : Environment) : Except SettingsError Settings := do
  let d : Settings := {}
  let port ← env.int "PORT" "Port" d.port
  let host := env.text "HOST" d.host
  let logLevel := env.text "LOG_LEVEL" d.logLevel
  let logDevelopment ← env.bool "LOG_DEV" "LogDev" d.logDevelopment
  let backend := env.text "BACKEND" d.backend
  let samples ← env.int "SAMPLES" "Samples" d.samples
  let tables := env.text "TABLES" d.tables
  if samples ≤ 0 then throw (.sampleCount samples)
  let _ ← backendOf backend
  return { port, host, logLevel, logDevelopment, backend, samples, tables }

/-- What the settings change about the compiler's options, given the files that there are. -/
def overrides (s : Settings) (file? : String → Option String) :
    Except SettingsError (List Override) := do
  let b ← backendOf s.backend
  if s.tables.isEmpty then return [.backend b]
  match file? s.tables with
  | none => throw (.unreadableFile s.tables)
  | some content =>
    let t ← (TablesFile.parse content).mapError .tables
    return .backend b :: t.overrides

end Settings

end ExprCompiler.Configuration
