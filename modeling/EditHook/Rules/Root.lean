import EditHook.Path

/-! The directory a section of rules is about. Globs are matched with the directory in front,
placeholders are filled with it stripped, and commands run inside it. -/

namespace EditHook

inductive Root where
  | repository
  /-- A directory, written without separators at its end. -/
  | dir (name : String)
  deriving DecidableEq, Repr

namespace Root

/-- A text without the separators at its end. -/
def trimmed (text : String) : List Char :=
  (text.toList.reverse.dropWhile (· == '/')).reverse

def ofText (text : String) : Root :=
  match trimmed text with
  | [] => repository
  | c :: cs => dir (String.ofList (c :: cs))

def display : Root → String
  | repository => "/"
  | dir name => name

/-- A glob of this root as seen from the current directory. -/
def qualify (glob : String) : Root → String
  | repository => glob
  | dir name => name ++ "/" ++ glob

/-- A path as seen from inside; a path that does not lie inside stays as it is. -/
def unqualify (path : String) : Root → String
  | repository => path
  | dir name =>
    if (name.toList ++ ['/']).isPrefixOf path.toList then
      String.ofList (path.toList.drop (name.length + 1))
    else path

/-- Where commands run when the program runs in `cwd`. -/
def directory (cwd : String) : Root → String
  | repository => cwd
  | dir name => Path.join cwd name

end Root

end EditHook
