/-! What the library reports about its work. -/
namespace RecordSearch.Log

inductive Level
  | debug
  | info
  | warn
deriving DecidableEq

def Level.name : Level → String
  | .debug => "debug"
  | .info => "info"
  | .warn => "warn"

structure Line where
  level : Level
  message : String
deriving DecidableEq

end RecordSearch.Log
