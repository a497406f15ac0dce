import EditHook.Log.Entry
import EditHook.Rules.Default

/-! Which table is in force: the one that was asked for, else the project's own, else the built-in
one. A table that was chosen and does not load is an error; another is not tried. -/

namespace EditHook

namespace RuleTable

/-- The table in a file. -/
def load (files : FileView) (path : RawPath) : Load RuleTable :=
  match files.read path with
  | .error .notFound => .error (.notFound path)
  | .error f => .error (.unreadable f)
  | .ok bytes =>
    match textOfBytes? bytes with
    | some text => ofText text
    | none => .error .notText

def projectFile (cwd : String) : String :=
  Path.join cwd ".claude/post-edit-lint.kdl"

/-- The table for a run in `cwd`, with what the log says about the choice. -/
def locate (files : FileView) (config : Option RawPath) (cwd : String) :
    List LogEntry × Load RuleTable :=
  match config with
  | some path => ([⟨.info, "using config " ++ path.display⟩], load files path)
  | none =>
    let path := projectFile cwd
    if files.isFile path then ([⟨.info, "using project config " ++ path⟩], load files path)
    else ([⟨.debug, "no config file; using embedded defaults"⟩], builtIn)

end RuleTable

end EditHook
