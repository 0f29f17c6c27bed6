import ExprCompiler.Text.Quoted

/-!
# Log levels

From which level on a logger writes. A logger that could not be set up writes nothing.
-/

namespace ExprCompiler.Configuration

inductive LogLevel where
  | debug
  | info
  | warn
  | error
  /-- Stops a program under development. -/
  | grave
  /-- Stops what is under way. -/
  | alarm
  | fatal
deriving DecidableEq, Repr

namespace LogLevel

/-- All levels, from the least to the gravest. -/
def all : List LogLevel := [.debug, .info, .warn, .error, .grave, .alarm, .fatal]

def name : LogLevel → String
  | .debug => "debug"
  | .info => "info"
  | .warn => "warn"
  | .error => "error"
  | .grave => "dpanic"
  | .alarm => "panic"
  | .fatal => "fatal"

def rank (l : LogLevel) : Nat := all.idxOf l

/-- Lower case where it gives a letter of ASCII: besides the capitals, the dotted capital I and the
sign for kelvin. -/
def lowerCase (c : Char) : Char :=
  if c.toNat == 0x130 then 'i' else if c.toNat == 0x212a then 'k' else c.toLower

/-- The level of a name in any case; the empty name is the default level. -/
def ofName? (s : String) : Option LogLevel :=
  if s.isEmpty then some .info
  else all.find? fun l ↦ l.name == String.ofList (s.toList.map lowerCase)

/-- Whether a logger from this level on writes at another. -/
def enables (threshold l : LogLevel) : Bool := decide (threshold.rank ≤ l.rank)

/-- What is said of a name that is no level. -/
def unknownMessage (s : String) : String := "unrecognized level: " ++ Text.quote s

end LogLevel

/-- How a logger is set up. -/
structure LogSettings where
  level : String := "info"
  development : Bool := false
  outputs : List String := ["stderr"]

/-- A logger, or one that writes nothing. -/
inductive Logger where
  | silent
  | upFrom (threshold : LogLevel)

namespace Logger

def make (s : LogSettings) : Except String Logger :=
  match LogLevel.ofName? s.level with
  | some l => .ok (.upFrom l)
  | none => .error (LogLevel.unknownMessage s.level)

def makeOrSilent (s : LogSettings) : Logger := (make s).toOption.getD .silent

def writes : Logger → LogLevel → Bool
  | .silent, _ => false
  | .upFrom threshold, l => threshold.enables l

end Logger

end ExprCompiler.Configuration
