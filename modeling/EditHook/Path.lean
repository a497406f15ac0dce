/-! Paths as text. Two spellings of a path have the same components; components are what it takes
to see whether a path lies inside a directory. -/

namespace EditHook

inductive Component where
  /-- The separator that makes a path absolute. -/
  | root
  /-- A dot at the start of a relative path; other dots are no components. -/
  | here
  | name (s : String)
  deriving DecidableEq, Repr

namespace Path

/-- The texts between separators. -/
def segments : List Char → List (List Char)
  | [] => [[]]
  | c :: cs =>
    if c = '/' then [] :: segments cs
    else
      match segments cs with
      | [] => [[c]]
      | seg :: rest => (c :: seg) :: rest

/-- The segments that name something: neither empty nor a dot. -/
def names (cs : List Char) : List String :=
  ((segments cs).filter (fun seg => !seg.isEmpty && seg != ['.'])).map String.ofList

def components (path : String) : List Component :=
  let cs := path.toList
  let rest := (names cs).map Component.name
  if cs.head? = some '/' then .root :: rest
  else if (segments cs).head? = some ['.'] then .here :: rest
  else rest

def withSeparators : List Component → List Char
  | [] => []
  | .root :: rest => '/' :: withSeparators rest
  | .here :: rest => '.' :: (if rest.isEmpty then [] else '/' :: withSeparators rest)
  | .name s :: rest => s.toList ++ (if rest.isEmpty then [] else '/' :: withSeparators rest)

/-- The shortest spelling of some components. -/
def spell (cs : List Component) : String :=
  String.ofList (withSeparators cs)

/-- The components of a path without dots. -/
def cleaned (path : String) : List Component :=
  (components path).filter (· != .here)

/-- What remains of a list after a first part, if it starts with it. -/
def after? : List Component → List Component → Option (List Component)
  | [], rest => some rest
  | _ :: _, [] => none
  | d :: dir, c :: rest => if d = c then after? dir rest else none

/-- A path as seen from a directory: relative if it lies strictly inside, else as it is, in both
cases without dots and repeated separators. -/
def seenFrom (dir path : String) : String :=
  match after? (components dir) (cleaned path) with
  | some (c :: rest) => spell (c :: rest)
  | _ => spell (cleaned path)

/-- A path below a directory; an absolute path stays as it is. -/
def join (dir path : String) : String :=
  if path.toList.head? = some '/' || dir.isEmpty then path
  else if dir.toList.getLast? = some '/' then dir ++ path
  else dir ++ "/" ++ path

end Path

end EditHook
