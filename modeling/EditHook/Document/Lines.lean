import EditHook.Document.Character

/-! Text over several lines between triple quotes. The first line is empty, the last one holds the
indentation that every other line starts with unless it is blank, and any newline means a line
feed. -/

namespace EditHook

/-- A character of quoted text as written. -/
inductive Written where
  | plain (c : Char)
  /-- The character of an escape. -/
  | escaped (c : Char)
  /-- A backslash with the space and newlines after it. -/
  | gap
  deriving DecidableEq, Repr

namespace Written

def char? : Written → Option Char
  | plain c => some c
  | escaped c => some c
  | gap => none

def isSpace : Written → Bool
  | plain c => Character.isSpace c
  | _ => false

def chars (ws : List Written) : List Char :=
  ws.filterMap char?

/-- Splits at newlines; a carriage return and the line feed after it are one. -/
def lines : List Written → List (List Written)
  | [] => [[]]
  | plain '\r' :: plain '\n' :: rest => [] :: lines rest
  | w :: rest =>
    if (match w with | plain c => Character.isNewline c | _ => false) then [] :: lines rest
    else
      match lines rest with
      | [] => [[w]]
      | line :: more => (w :: line) :: more

def unindent? (indent : List Written) : List Written → Option (List Char)
  | line =>
    if line.all isSpace then some []
    else if indent.isPrefixOf line then some (chars (line.drop indent.length))
    else none

/-- The text between triple quotes, the quotes excluded. -/
def block? (body : List Written) : Option (List Char) :=
  match lines body with
  | [] :: line :: more =>
    let rest := line :: more
    let last := rest.getLastD []
    if last.all (fun w => isSpace w || w == gap) then do
      let inner ← rest.dropLast.mapM (unindent? (last.takeWhile isSpace))
      return (inner.intersperse ['\n']).flatten
    else none
  | _ => none

end Written

end EditHook
