import EditHook.Log.Level

/-! Entries of the log. Each stands on a line of its own, as far as its text does. -/

namespace EditHook

structure LogEntry where
  level : LogLevel
  text : String
  deriving DecidableEq, Repr

namespace LogEntry

def tag : LogLevel → String
  | .off => ""
  | .error => "[ERROR]"
  | .warn => "[WARN]"
  | .info => "[INFO]"
  | .debug => "[DEBUG]"
  | .trace => "[TRACE]"

/-- An entry as written, without the time in front. -/
def line (e : LogEntry) : String :=
  tag e.level ++ " " ++ e.text

/-- The entries that a log of some level keeps. -/
def kept (limit : LogLevel) (es : List LogEntry) : List LogEntry :=
  es.filter (fun e => limit.admits e.level)

end LogEntry

end EditHook
