import EditHook.Dispatch.Outcome
import EditHook.Rehearsal.Shell.Run

/-! A machine in memory that commands can be run on: some directories, the programs it knows, and
whatever files are put there. It stands in for the system around the hook, which is no part of the
model: the hook takes any executor and any view of files, and the theorems are about all of them.
What is below `Rehearsal` serves to run the whole program and look at it, and nothing is proved
about it. -/

namespace EditHook

namespace Machine

def directories : List Location :=
  [["bin"], ["dev"], ["etc"], ["home"], ["lib"], ["opt"], ["proc"], ["root"], ["sbin"], ["tmp"],
    ["usr"], ["usr", "bin"], ["usr", "lib"], ["usr", "local"], ["usr", "local", "bin"],
    ["usr", "sbin"], ["var"], ["var", "log"]]

/-- How much is read at most from a device that has no end. -/
def greatestRead : Nat := 150000

def devices : List (Location × Content) :=
  [(["dev", "null"], .device []), (["dev", "zero"], .device (List.replicate greatestRead 0))]

def programs : List String :=
  Shell.Session.shells ++ Tool.table.map (·.1)

/-- The files of a machine that nobody has used. -/
def files : Files :=
  ⟨directories.map (fun l => (l, .directory)) ++ devices ++
    programs.flatMap (fun p =>
      [(["bin", p], .program p), (["usr", "bin", p], .program p)])⟩

inductive StartFault where
  | file (f : FileFault)
  | nulInArgument
  deriving DecidableEq, Repr

def programAt (fs : Files) (here : Location) (path : String) : Except FileFault String := do
  match fs.content? (← fs.locate here path) with
  | some (.program p) => return p
  | _ => throw .notPermitted

/-- Looks for a program in one directory after the other. One that may not be run counts only if no
other is found. -/
def search (fs : Files) (here : Location) (name : String) : List String → Except FileFault String
  | [] => .error .notFound
  | d :: ds =>
    match programAt fs here (d ++ "/" ++ name) with
    | .ok p => .ok p
    | .error f =>
      match search fs here name ds with
      | .error .notFound => .error (if f == .notPermitted then f else .notFound)
      | r => r

def searchPath : List String :=
  Shell.Session.defaultPath.splitOn ":"

/-- The program that is meant by a name as seen from a directory. -/
def programFor (fs : Files) (here : Location) (argv : List String) : Except StartFault String :=
  let name := argv.headD ""
  let found :=
    if name.isEmpty then .error .notFound
    else if name.toList.contains '/' then programAt fs here name
    else if Files.greatestName < name.utf8ByteSize then .error .nameTooLong
    else search fs here name searchPath
  if argv.any (fun a => a.toList.contains '\x00') then .error .nulInArgument
  else found.mapError .file

def StartFault.message (program : String) : StartFault → String
  | .file .notFound => "Command not found: " ++ program
  | .file f => "Failed to run " ++ program ++ ": " ++ f.message
  | .nulInArgument => "Failed to run " ++ program ++ ": nul byte found in provided data"

/-- The exit code that stands for the end by a signal. -/
def signalCode : Int := -1

def complete (program : String) (argv : List String) (here : Location)
    (environment : List (String × String)) (fs : Files) : Outcome × Files :=
  let session := Shell.Session.fresh fs here environment
  let (flow, s) := session.runAlone program (argv.headD "") (argv.drop 1)
  let code := match flow with | .killed _ => signalCode | _ => s.status
  (⟨code, textOfBytes (s.printedTo Shell.Session.outputNumber),
    textOfBytes (s.printedTo Shell.Session.complaintNumber)⟩, s.files)

/-- Answers calls by running them on files, as seen from a directory. -/
def executor (here : Location) (environment : List (String × String)) : Executor Files :=
  fun call fs =>
    if call.argv.isEmpty then (.failedToStart "Empty command", fs)
    else
      let missing := (.failedToStart ("Working directory not found: " ++ call.dir), fs)
      match fs.locate here call.dir with
      | .error _ => missing
      | .ok l =>
        if !fs.isDirectory l then missing
        else
          match programFor fs l call.argv with
          | .error e => (.failedToStart (e.message (call.argv.headD "")), fs)
          | .ok program => complete program call.argv l environment fs

def environment (home : Option String) : List (String × String) :=
  ("PATH", Shell.Session.defaultPath) ::
    (match home with | some h => [("HOME", h)] | none => [])

end Machine

end EditHook
