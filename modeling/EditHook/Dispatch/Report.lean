import EditHook.Dispatch.Step

/-! What is told about the commands that ran for a file: how many there were, and which failed. -/

namespace EditHook

/-- The result of a whole run, told by the exit code. -/
inductive Verdict where
  | success
  /-- Something has to be put right, and the text on standard error says what. -/
  | blocking
  deriving DecidableEq, Repr

def Verdict.code : Verdict → Nat
  | success => 0
  | blocking => 2

structure Failure where
  root : Root
  command : Command
  outcome : Outcome
  deriving DecidableEq, Repr

structure Report where
  path : String
  executed : Nat
  failures : List Failure
  deriving DecidableEq, Repr

/-- The text under a title, if there is any. -/
def titled (title text : String) : String :=
  if text.isEmpty then "" else title ++ ":\n" ++ text ++ "\n"

def separator : String :=
  String.ofList (List.replicate 50 '-')

def Failure.render (path : String) (f : Failure) : String :=
  "Linting failed for " ++ path ++ ":\n" ++
    "Command: " ++ f.command.display ++ " (in " ++ f.root.display ++ ")\n" ++
    titled "STDOUT" f.outcome.stdout ++ titled "STDERR" f.outcome.stderr ++ separator ++ "\n"

namespace Report

def empty (path : String) : Report :=
  ⟨path, 0, []⟩

def record (r : Report) (s : Selected) (o : Outcome) : Report :=
  { r with
    executed := r.executed + 1
    failures := if o.succeeded then r.failures else r.failures ++ [⟨s.root, s.command, o⟩] }

def ofSteps (path : String) (steps : List Step) : Report :=
  steps.foldl (fun r s => r.record s.selected s.outcome) (empty path)

def hasFailures (r : Report) : Bool :=
  !r.failures.isEmpty

def verdict (r : Report) : Verdict :=
  if r.hasFailures then .blocking else .success

def render (r : Report) : String :=
  String.join (r.failures.map (Failure.render r.path))

end Report

/-- Runs every command for `path`. The placeholders are filled from `file`, which is the same path
as it was given. -/
def RuleTable.dispatch (t : RuleTable) (path file cwd : String) (execute : Executor σ) (s : σ) :
    List Step × σ :=
  Step.runAll execute file cwd (t.select path) s

end EditHook
