/-! Commands with a placeholder for the edited file. A command has a program, so it is never empty;
the placeholder counts only as a whole token. -/

namespace EditHook

structure Command where
  program : String
  arguments : List String
  deriving DecidableEq, Repr

namespace Command

def placeholder : String := "$@"

def ofTokens? : List String → Option Command
  | [] => none
  | program :: arguments => some ⟨program, arguments⟩

def tokens (c : Command) : List String :=
  c.program :: c.arguments

def display (c : Command) : String :=
  " ".intercalate c.tokens

/-- The tokens with the placeholder replaced. -/
def filled (c : Command) (path : String) : List String :=
  c.tokens.map (fun t => if t = placeholder then path else t)

end Command

end EditHook
