import EditHook.Json.Basic

/-! What a hook is told about an edit: the event, the tool that made it and the tool's input. Only
the input decides which file is meant. -/

namespace EditHook

structure Payload where
  event : Option String
  tool : Option String
  input : Json
  deriving Repr

namespace Payload

/-- The edited file. A notebook counts where no other file is named. -/
def file? (p : Payload) : Option String :=
  (p.input.textMember? "file_path").or (p.input.textMember? "notebook_path")

end Payload

end EditHook
