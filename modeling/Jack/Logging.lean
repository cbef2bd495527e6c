import Jack.Compiler.Goal

/-! # Logging

The events of a compilation as log records. Every record has a logger and a
severity. A logger has a level, below which its records are dropped; a logger whose
level is not set has the one of the logger it belongs to.
-/

namespace Jack

/-- Who writes a log record. -/
inductive Logger where
  /-- The reader of source text. -/
  | lexer
  /-- The compiler. -/
  | engine
  /-- The workspace that compilations are made in. -/
  | context
  deriving Repr, DecidableEq

/-- The name of a logger. -/
def Logger.name : Logger → String
  | .lexer => "jackc.lexer"
  | .engine => "jackc.engine"
  | .context => "api.context"

/-- How much a record matters. -/
inductive Severity where
  | debug | info
  deriving Repr, DecidableEq

namespace Severity

/-- The name of a severity. -/
def name : Severity → String
  | debug => "DEBUG"
  | info => "INFO"

/-- The place of a severity on the scale of levels. -/
def level : Severity → Int
  | debug => 10
  | info => 20

end Severity

/-- A log record. -/
structure LogRecord where
  logger : Logger
  severity : Severity
  message : String
  deriving Repr, DecidableEq

/-- The record of an event, for those that are logged. -/
def Event.record? : Event → Option LogRecord
  | .delivered d =>
    some ⟨.lexer, .debug,
      "Read " ++ toString d.size ++ " characters (line " ++ toString d.line ++ ")"⟩
  | .classEntered name => some ⟨.engine, .debug, "Compiling class " ++ name⟩
  | .subroutineEntered kind name locals =>
    some ⟨.engine, .debug,
      "Compiling " ++ kind.text ++ " " ++ name ++ " (" ++ toString locals ++ " locals)"⟩
  | .listRead _ => none

/-- The levels that are set, where zero is a level that is not. The reader and the compiler share
a level. -/
structure LogLevels where
  compiler : Int
  context : Int
  deriving Repr, DecidableEq

namespace LogLevels

/-- Levels that are not set. -/
def unset : LogLevels := ⟨0, 0⟩

/-- Levels that keep every record. -/
def debugging : LogLevels := ⟨Severity.debug.level, Severity.debug.level⟩

/-- The level of a logger that has none of its own and belongs to no other. -/
def base : Int := 30

/-- The level that a logger goes by. -/
def of (levels : LogLevels) (logger : Logger) : Int :=
  let own := match logger with
    | .lexer | .engine => levels.compiler
    | .context => levels.context
  if own = 0 then base else own

/-- Whether a record is kept. -/
def keep (levels : LogLevels) (r : LogRecord) : Bool :=
  levels.of r.logger ≤ r.severity.level

end LogLevels

end Jack
