/-! Log lines. -/

namespace EntitySql

inductive LogLevel where
  | debug
  | info
  | warn
  deriving DecidableEq, Repr

structure LogLine where
  level : LogLevel
  message : String
  deriving DecidableEq, Repr

def LogLevel.name : LogLevel → String
  | .debug => "DEBUG"
  | .info => "INFO"
  | .warn => "WARN"

def LogLine.text (line : LogLine) : String :=
  line.level.name ++ " " ++ line.message

end EntitySql
