import EditHook.CommandLine.Reader
import EditHook.Hook.Run

/-! The program as a whole: from its arguments to its exit code and what it prints. -/

namespace EditHook

structure Finish where
  exitCode : Nat
  stdout : String
  stderr : String
  deriving DecidableEq, Repr

def misuseCode : Nat := 2

namespace Options

/-- What the log says about the surroundings of a run, before anything else. -/
def preamble (o : Options) (cwd : Option String) : List LogEntry :=
  (if o.extra.isEmpty then []
    else [⟨.warn, "ignoring extra arguments: " ++ " ".intercalate o.extra⟩]) ++
    (if cwd.isSome then []
      else [⟨.warn, "cannot determine current directory: " ++ FileFault.notFound.message⟩])

/-- Runs the hook with some options. Without a current directory the dot stands for it. -/
def runHook (o : Options) (files : FileView) (cwd : Option String) (stdin : Stdin)
    (execute : Executor σ) (s : σ) : HookRun × σ :=
  let (run, s) := EditHook.runHook files o.file o.config stdin (cwd.getD ".") execute s
  ({ run with log := o.preamble cwd ++ run.log }, s)

end Options

/-- How a run of the hook ends the program. -/
def HookRun.finish (r : HookRun) : Finish :=
  ⟨r.verdict.code, "", r.stderr⟩

/-- The program with some arguments: how it ends, and the log as far as its level keeps it. There is
no log when the hook does not run or its level is off. -/
def program (arguments : List Argument) (files : FileView) (cwd : Option String) (stdin : Stdin)
    (execute : Executor σ) (s : σ) : Finish × Option (List LogEntry) × σ :=
  match CommandLine.read arguments with
  | .run o =>
    let (run, s) := o.runHook files cwd stdin execute s
    (run.finish, if o.level = .off then none else some (LogEntry.kept o.level run.log), s)
  | .answer i => (⟨0, i.text, ""⟩, none, s)
  | .refuse m => (⟨misuseCode, "", m.message⟩, none, s)

end EditHook
