/-! Signals by number and name, as far as a rehearsal has them. -/

namespace EditHook

namespace Shell

structure Signal where
  number : Nat
  name : String
  description : String
  /-- A process that does not care is ended by it. -/
  ends : Bool
  deriving DecidableEq, Repr

namespace Signal

def all : List Signal :=
  [⟨1, "HUP", "Hangup", true⟩, ⟨2, "INT", "", true⟩, ⟨3, "QUIT", "Quit", true⟩,
    ⟨4, "ILL", "Illegal instruction", true⟩, ⟨5, "TRAP", "Trace/breakpoint trap", true⟩,
    ⟨6, "ABRT", "Aborted", true⟩, ⟨7, "BUS", "Bus error", true⟩,
    ⟨8, "FPE", "Floating point exception", true⟩, ⟨9, "KILL", "Killed", true⟩,
    ⟨10, "USR1", "User defined signal 1", true⟩, ⟨11, "SEGV", "Segmentation fault", true⟩,
    ⟨12, "USR2", "User defined signal 2", true⟩, ⟨13, "PIPE", "", true⟩,
    ⟨14, "ALRM", "Alarm clock", true⟩, ⟨15, "TERM", "Terminated", true⟩,
    ⟨17, "CHLD", "", false⟩, ⟨18, "CONT", "", false⟩, ⟨23, "URG", "", false⟩,
    ⟨24, "XCPU", "CPU time limit exceeded", true⟩, ⟨25, "XFSZ", "File size limit exceeded", true⟩,
    ⟨28, "WINCH", "", false⟩, ⟨31, "SYS", "Bad system call", true⟩]

def terminate : Nat := 15

/-- The signal that no process can handle. -/
def unstoppable : Nat := 9

def number? (text : String) : Option Nat :=
  match text.toNat? with
  | some n => some n
  | none =>
    let name := text.toUpper
    let name := if name.startsWith "SIG" then (name.drop 3).toString else name
    (all.find? (fun s => s.name == name)).map (·.number)

def ofNumber? (n : Nat) : Option Signal :=
  all.find? (fun s => s.number == n)

/-- The name under which a handler is kept. -/
def key (text : String) : String :=
  match number? text with
  | some n => if n = 0 then "EXIT" else toString n
  | none => text

end Signal

end Shell

end EditHook
