import ExprCompiler.Configuration.LogLevel
import ExprCompiler.Configuration.Settings
import ExprCompiler.Service.Endpoint
import ExprCompiler.Service.Identifier

/-!
# The service as a program

The settings come from the environment. Each line of the input is the body of a request and is
answered by a line; at the end of the input the counters go to the error stream.
-/

namespace ExprCompiler

/-- The variables of the environment that the settings look at. -/
def readEnvironment : IO Configuration.Environment := do
  let names := Configuration.Settings.variableNames.flatMap fun name ↦
    [Configuration.Environment.key name, name]
  let found ← names.mapM fun name ↦ do return (← IO.getEnv name).map (name, ·)
  return found.filterMap id

/-- The content of the tables file, if there is one that can be read. -/
def readTables (s : Configuration.Settings) : IO (Option String) :=
  if s.tables.isEmpty then return none
  else
    try
      return some (← IO.FS.readFile s.tables)
    catch _ =>
      return none

/-- A handler as the settings want it, or what is wrong with them. -/
def handlerOf (s : Configuration.Settings) (tables : Option String) :
    Except String Service.Handler := do
  let logging : Configuration.LogSettings :=
    { level := s.logLevel, development := s.logDevelopment }
  let _ ← (Configuration.Logger.make logging).mapError ("logger: " ++ ·)
  let overrides ← (s.overrides fun _ ↦ tables).mapError Configuration.SettingsError.message
  return .make (Configuration.optionsWith overrides) s.backend s.samples

/-- Answers requests until the input ends, or until a request ends the process. -/
partial def serveLines (h : Service.Handler) (counters : Service.Counters) :
    IO (Except Fault Service.Counters) := do
  let line ← (← IO.getStdin).getLine
  if line.isEmpty then return .ok counters
  let id := Service.identifier (← IO.getRandomBytes 16).toList
  let served := h.serve id "POST" line.toList
  match served.outcome with
  | .error fault => return .error fault
  | .ok reply =>
    let output ← IO.getStdout
    output.putStr reply.body
    output.flush
    serveLines h (counters.recordAll served.trace)

end ExprCompiler

open ExprCompiler in
/-- Serves the standard input under the settings of the environment. -/
def main : IO UInt32 := do
  match Configuration.Settings.load (← readEnvironment) with
  | .error e =>
    IO.eprintln e.message
    return 1
  | .ok settings =>
    match handlerOf settings (← readTables settings) with
    | .error message =>
      IO.eprintln message
      return 1
    | .ok h =>
      match ← serveLines h {} with
      | .error fault =>
        IO.eprintln ("panic: " ++ fault.message)
        return 2
      | .ok counters =>
        counters.lines.forM fun line ↦ IO.eprintln line
        return 0
