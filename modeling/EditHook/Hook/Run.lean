import EditHook.Dispatch.Report
import EditHook.Hook.Target
import EditHook.Rules.Locate
import EditHook.Text.Quoted

/-! A whole run of the hook: the file, the table for it, the commands, and what is told about them. -/

namespace EditHook

/-- What a run of the hook shows to the outside. -/
structure HookRun where
  log : List LogEntry
  steps : List Step
  stderr : String
  verdict : Verdict
  deriving DecidableEq, Repr

namespace HookRun

/-- A run without a file to check. -/
def idle (log : List LogEntry) : HookRun :=
  ⟨log ++ [⟨.info, "no file to check"⟩], [], "", .success⟩

/-- A run that a table stops which does not load. -/
def misconfigured (log : List LogEntry) (e : LoadError) : HookRun :=
  ⟨log ++ [⟨.warn, "config error: " ++ e.message⟩], [],
    "post-edit-lint: config error: " ++ e.message ++ "\n", .blocking⟩

end HookRun

/-- What the log says about the rules for a path. -/
def RuleTable.matchLog (t : RuleTable) (path : String) : List LogEntry :=
  let rules := t.rulesFor path
  rules.map (fun r => ⟨.debug, path ++ " matches rule at line " ++ toString r.2.line ++ " (root " ++
    r.1.display ++ ")"⟩) ++
    (if (t.select path).isEmpty then [⟨.info, "no rules match " ++ path⟩] else [])

def Step.log (s : Step) : List LogEntry :=
  [⟨.debug, "running " ++ quotedList s.call.argv ++ " in " ++ s.call.dir⟩,
    ⟨.info, s.selected.command.display ++ " (in " ++ s.selected.root.display ++ ") exited with " ++
      toString s.outcome.exitCode⟩]

def Report.log (r : Report) : LogEntry :=
  ⟨.info, r.path ++ ": " ++ toString r.executed ++ " command(s), " ++ toString r.failures.length ++
    " failed"⟩

/-- Runs the hook in `cwd`. The report is about the path as seen from there, and the commands get the
file as it was given. -/
def runHook (files : FileView) (argument : Option String) (config : Option RawPath) (stdin : Stdin)
    (cwd : String) (execute : Executor σ) (s : σ) : HookRun × σ :=
  let (about, file?) := target argument stdin
  match file? with
  | none => (.idle about, s)
  | some file =>
    let path := Path.seenFrom cwd file
    let (choice, table) := RuleTable.locate files config cwd
    match table with
    | .error e => (.misconfigured (about ++ choice) e, s)
    | .ok t =>
      let (steps, s) := t.dispatch path file cwd execute s
      let report := Report.ofSteps path steps
      (⟨about ++ choice ++ t.matchLog path ++ steps.flatMap Step.log ++ [report.log], steps,
        report.render, report.verdict⟩, s)

end EditHook
