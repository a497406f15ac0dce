import EditHook.Program
import EditHook.Rehearsal.LogFile
import EditHook.Rehearsal.Machine

/-! A rehearsal: the whole program on a machine in memory, its log included. Nothing is proved about
rehearsals; the program in them is the one the theorems are about. -/

namespace EditHook

structure Rehearsal where
  arguments : List Argument
  stdin : List UInt8
  files : Files
  here : Location
  home : Option String

namespace Rehearsal

/-- The current directory, if it still has a path. -/
def cwd (r : Rehearsal) : Option String :=
  if r.here.getLast? = some Files.nameless then none else some (Files.pathOf r.here)

def openLog (r : Rehearsal) : Files × Option Location :=
  match CommandLine.read r.arguments, r.home with
  | .run o, some home =>
    if o.level = .off then (r.files, none)
    else
      match LogFile.openIn r.files r.here home with
      | .ok (fs, l) => (fs, some l)
      | .error _ => (r.files, none)
  | _, _ => (r.files, none)

/-- How the program ends, and the files it leaves. -/
def play (r : Rehearsal) : Finish × Files :=
  let (fs, log) := r.openLog
  let (finish, entries, fs) :=
    program r.arguments (fs.view r.here) r.cwd (.bytes r.stdin)
      (Machine.executor r.here (Machine.environment r.home)) fs
  (finish,
    match log, entries with
    | some l, some es => LogFile.append fs l es
    | _, _ => fs)

end Rehearsal

end EditHook
