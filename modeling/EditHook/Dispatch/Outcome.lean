/-! Commands as they are handed out to be run, and what comes back. -/

namespace EditHook

structure Call where
  argv : List String
  dir : String
  deriving DecidableEq, Repr

structure Outcome where
  exitCode : Int
  stdout : String
  stderr : String
  deriving DecidableEq, Repr

namespace Outcome

def succeeded (o : Outcome) : Bool :=
  o.exitCode == 0

/-- What a command that never ran comes to. -/
def failedToStart (message : String) : Outcome :=
  ⟨1, "", message⟩

def quiet : Outcome :=
  ⟨0, "", ""⟩

end Outcome

/-- Anything that answers calls. An answer may depend on all earlier calls, through the state. -/
abbrev Executor (σ : Type) := Call → σ → Outcome × σ

/-- Answers prepared in advance. Calls beyond them succeed and print nothing. -/
def scripted : Executor (List Outcome)
  | _, [] => (.quiet, [])
  | _, o :: os => (o, os)

end EditHook
