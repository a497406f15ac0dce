import EditHook.Files.Store
import EditHook.Log.Entry

/-! The file of the log, below the home directory. Where it cannot be opened nothing is logged. Only
rehearsals open it; nothing is proved about where the log ends up. -/

namespace EditHook

namespace LogFile

def directoryNames : List String :=
  [".local", "share", "post-edit-lint"]

def fileName : String :=
  "hook.log"

/-- Opens the log below a home directory, which makes the directories it needs. -/
def openIn (fs : Files) (here : Location) (home : String) : Except FileFault (Files × Location) := do
  let (fs, l) ← fs.makeDirectories (Files.start here home) (Files.namesOf home ++ directoryNames)
  let path := Files.pathOf (l ++ [fileName])
  let fs ← fs.write [] path true []
  return (fs, l ++ [fileName])

def bytes (es : List LogEntry) : List UInt8 :=
  utf8 (String.join (es.map (fun e => e.line ++ "\n")))

def append (fs : Files) (l : Location) (es : List LogEntry) : Files :=
  match fs.write [] (Files.pathOf l) true (bytes es) with
  | .ok fs => fs
  | .error _ => fs

end LogFile

end EditHook
