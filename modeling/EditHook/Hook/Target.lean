import EditHook.Log.Entry
import EditHook.Payload.Reader

/-! Which file a run of the hook is about: the argument if there is one, and otherwise the file that
the payload names. Whatever is wrong with the payload, it only means that there is no file. -/

namespace EditHook

/-- The file that a payload names, with what the log says about it. -/
def Payload.target (p : Payload) : List LogEntry × Option String :=
  match p.file? with
  | some file =>
    ([⟨.debug, "file path from " ++ p.event.getD "unknown event" ++ " " ++
      p.tool.getD "unknown tool" ++ " payload: " ++ file⟩], some file)
  | none =>
    ([⟨.warn, "hook payload has neither tool_input.file_path nor tool_input.notebook_path"⟩], none)

/-- The file to check, with what the log says about it. Standard input is read only without an
argument, and an empty argument means that there is nothing to check. -/
def target (argument : Option String) (stdin : Stdin) : List LogEntry × Option String :=
  match argument with
  | some file =>
    ([⟨.debug, "file path from argument: " ++ file⟩], if file.isEmpty then none else some file)
  | none =>
    match Payload.ofStdin stdin with
    | .ok p => p.target
    | .error e =>
      ([⟨.warn, "no file path from argument or hook payload: " ++ e.message⟩], none)

end EditHook
