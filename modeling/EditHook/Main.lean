import EditHook.Rehearsal.Play

/-! The command line. It puts the table a run needs onto a machine in memory, rehearses the run
there, and prints what the program prints. No theorem is about this outer layer. -/

namespace EditHook

/-- Puts a file at an absolute path, with the directories it needs. -/
def Files.supply (fs : Files) (path : String) (bytes : List UInt8) : Files :=
  match fs.makeDirectories [] (namesOf path).dropLast with
  | .ok (fs, _) => (fs.write [] path false bytes).toOption.getD fs
  | .error _ => fs

/-- The file of the table that a request is about, if its path is a text. -/
def Request.tableFile? (cwd : String) : Request → Option String
  | .run o => textOfBytes? (o.config.getD (RuleTable.projectFile cwd)).bytes
  | _ => none

def Request.readsInput : Request → Bool
  | .run o => o.file.isNone
  | _ => false

def currentDirectory? : IO (Option String) := do
  try return some (← IO.currentDir).toString
  catch _ => return none

def bytesAt? (path : String) : IO (Option (List UInt8)) := do
  try return some (← IO.FS.readBinFile path).toList
  catch _ => return none

def inputBytes : IO (List UInt8) := do
  return (← (← IO.getStdin).readBinToEnd).toList

/-- The current directory of a machine that has one of the given path. -/
def Files.supplyDirectory (fs : Files) (path : String) : Files × Location :=
  match fs.makeDirectories [] (namesOf path) with
  | .ok r => r
  | .error _ => (fs, [])

def rehearsalOf (arguments : List String) : IO Rehearsal := do
  let arguments := arguments.map utf8
  let request := CommandLine.read arguments
  let cwd := (← currentDirectory?).getD "/"
  let (fs, here) := Machine.files.supplyDirectory cwd
  let stdin ← if request.readsInput then inputBytes else pure []
  let home ← IO.getEnv "HOME"
  match request.tableFile? cwd with
  | none => return ⟨arguments, stdin, fs, here, home⟩
  | some path =>
    match ← bytesAt? path with
    | none => return ⟨arguments, stdin, fs, here, home⟩
    | some bytes => return ⟨arguments, stdin, fs.supply (Path.join cwd path) bytes, here, home⟩

end EditHook

def main (arguments : List String) : IO UInt32 := do
  let (finish, _) := (← EditHook.rehearsalOf arguments).play
  (← IO.getStdout).putStr finish.stdout
  (← IO.getStderr).putStr finish.stderr
  return UInt32.ofNat finish.exitCode
