/-! How much is written to the log. -/

namespace EditHook

inductive LogLevel where
  | off
  | error
  | warn
  | info
  | debug
  | trace
  deriving DecidableEq, Repr

namespace LogLevel

def all : List LogLevel :=
  [off, error, warn, info, debug, trace]

def name : LogLevel → String
  | off => "off"
  | error => "error"
  | warn => "warn"
  | info => "info"
  | debug => "debug"
  | trace => "trace"

def names : List String :=
  all.map name

def ofName? (text : String) : Option LogLevel :=
  all.find? (fun l => l.name == text)

def unknownMessage (text : String) : String :=
  "invalid variant: " ++ text

/-- The place of a level in the order from silence to the most detail. -/
def rank : LogLevel → Nat
  | off => 0
  | error => 1
  | warn => 2
  | info => 3
  | debug => 4
  | trace => 5

/-- Whether an entry of level `l` is kept where the log is kept at `limit`. -/
def admits (limit l : LogLevel) : Bool :=
  l.rank ≤ limit.rank

end LogLevel

end EditHook
