import EditHook.Dispatch.Outcome
import EditHook.Rules.Table

/-! Running selected commands one after the other. A failure stops nothing. -/

namespace EditHook

/-- A command that ran: what it was selected for, how it was called and what it came to. -/
structure Step where
  selected : Selected
  call : Call
  outcome : Outcome
  deriving DecidableEq, Repr

namespace Selected

/-- The call of a selected command for a file, when the program itself runs in `cwd`. -/
def call (s : Selected) (file cwd : String) : Call :=
  ⟨s.command.filled (s.root.unqualify file), s.root.directory cwd⟩

end Selected

namespace Step

def run (execute : Executor σ) (file cwd : String) (x : Selected) (s : σ) : Step × σ :=
  let answer := execute (x.call file cwd) s
  (⟨x, x.call file cwd, answer.1⟩, answer.2)

def runAll (execute : Executor σ) (file cwd : String) : List Selected → σ → List Step × σ
  | [], s => ([], s)
  | x :: xs, s =>
    let first := run execute file cwd x s
    let rest := runAll execute file cwd xs first.2
    (first.1 :: rest.1, rest.2)

end Step

end EditHook
