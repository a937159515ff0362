/-!
Entries of the log: who says what at which level.
-/

namespace Ancestry.Log

/-- Levels are numbers; the higher, the more severe. -/
abbrev Level := Int

namespace Level

def debug : Level := 10
def info : Level := 20
def warning : Level := 30
def error : Level := 40
def critical : Level := 50

def name : Level → String
  | 0 => "NOTSET"
  | 10 => "DEBUG"
  | 20 => "INFO"
  | 30 => "WARNING"
  | 40 => "ERROR"
  | 50 => "CRITICAL"
  | n => "Level " ++ toString n

end Level

structure Entry where
  logger : String
  level : Level
  message : String
  deriving DecidableEq, Repr

end Ancestry.Log
