import EditHook.Files.View
import EditHook.Path

/-! Files in memory. A path is looked up name by name from a directory, and two dots lead to the
directory above. A directory may be without a name, when it was removed while someone stood in it:
nothing leads into it and nothing can be put there, but its own dots still work. Rehearsals run on
such files; the theorems take any view of files, and one of these only as an example. -/

namespace EditHook

inductive Content where
  | directory
  | file (bytes : List UInt8)
  /-- Always reads the same and forgets what is written. -/
  | device (bytes : List UInt8)
  | program (name : String)
  deriving DecidableEq, Repr

/-- The names that lead to a place from the topmost directory. -/
abbrev Location := List String

/-- Contents at their locations. The topmost directory is always there. -/
structure Files where
  contents : List (Location × Content)

namespace Files

/-- The last name of the location of a directory that was removed. No path has it. -/
def nameless : String := "\x00"

def greatestName : Nat := 255

def greatestPath : Nat := 4095

def content? (fs : Files) (l : Location) : Option Content :=
  if l.isEmpty then some .directory else fs.contents.lookup l

def put (fs : Files) (l : Location) (e : Content) : Files :=
  ⟨(l, e) :: fs.contents.filter (fun x => x.1 != l)⟩

def erase (fs : Files) (l : Location) : Files :=
  ⟨fs.contents.filter (fun x => x.1 != l)⟩

def isDirectory (fs : Files) (l : Location) : Bool :=
  fs.content? l == some .directory

/-- The names inside a directory. -/
def inside (fs : Files) (l : Location) : List String :=
  fs.contents.filterMap (fun x =>
    if x.1.dropLast == l && !x.1.isEmpty then x.1.getLast? else none) |>.filter (· != nameless)

/-- Follows names from a location. -/
def walk (fs : Files) : Location → List String → Except FileFault Location
  | here, [] => .ok here
  | here, name :: rest =>
    if !fs.isDirectory here then .error .notDirectory
    else if name.isEmpty || name = "." then walk fs here rest
    else if name = ".." then walk fs here.dropLast rest
    else if greatestName < name.utf8ByteSize then .error .nameTooLong
    else if (fs.content? (here ++ [name])).isSome then walk fs (here ++ [name]) rest
    else .error .notFound

/-- The names in a path, with an empty one for each separator too many. -/
def namesOf (path : String) : List String :=
  (Path.segments path.toList).map String.ofList

/-- Follows the names in a path, and ends at the first that is no text: no file here has such a one. -/
def follow (fs : Files) : Location → List (List UInt8) → Except FileFault Location
  | here, [] => .ok here
  | here, name :: rest =>
    match textOfBytes? name with
    | some text =>
      match fs.walk here [text] with
      | .ok next => follow fs next rest
      | .error f => .error f
    | none =>
      if !fs.isDirectory here then .error .notDirectory
      else if greatestName < name.length then .error .nameTooLong
      else .error .notFound

/-- What is wrong with a path whatever files there are. -/
def pathFault? (path : RawPath) : Option FileFault :=
  if path.bytes.contains 0 then some .nulInName
  else if path.bytes.isEmpty then some .notFound
  else if greatestPath < path.bytes.length then some .nameTooLong
  else none

def separator : UInt8 := 0x2F

def start (here : Location) (path : RawPath) : Location :=
  if path.bytes.head? = some separator then [] else here

def locate (fs : Files) (here : Location) (path : RawPath) : Except FileFault Location :=
  match pathFault? path with
  | some f => .error f
  | none => fs.follow (start here path) (path.bytes.splitOn separator)

/-- How programs start. It is no text. -/
def programHead : List UInt8 :=
  [0x7F, 0x45, 0x4C, 0x46, 0x02, 0x01, 0x01, 0x00, 0xFF]

def read (fs : Files) (here : Location) (path : RawPath) : Except FileFault (List UInt8) :=
  match fs.locate here path with
  | .error f => .error f
  | .ok l =>
    match fs.content? l with
    | some (.file bytes) => .ok bytes
    | some (.device bytes) => .ok bytes
    | some (.program _) => .ok programHead
    | some .directory => .error .isDirectory
    | none => .error .notFound

def isFile (fs : Files) (here : Location) (path : RawPath) : Bool :=
  match fs.locate here path with
  | .error _ => false
  | .ok l =>
    match fs.content? l with
    | some (.file _) => true
    | some (.program _) => true
    | _ => false

def view (fs : Files) (here : Location) : FileView :=
  ⟨fs.read here, fs.isFile here⟩

/-- The location of a path that need not be there yet, as long as its directory is. -/
def destination (fs : Files) (here : Location) (path : String) : Except FileFault Location := do
  match fs.locate here path with
  | .ok l => return l
  | .error .notFound =>
    match pathFault? path with
    | some f => throw f
    | none =>
      let names := namesOf path
      let parent ← fs.walk (start here path) names.dropLast
      match names.getLast? with
      | some name =>
        if name.isEmpty then throw .isDirectory
        else if parent.getLast? = some nameless then throw .notFound
        else return parent ++ [name]
      | none => throw .notFound
  | .error f => throw f

def write (fs : Files) (here : Location) (path : String) (append : Bool) (bytes : List UInt8) :
    Except FileFault Files := do
  let l ← fs.destination here path
  match fs.content? l with
  | some .directory => throw .isDirectory
  | some (.device _) => return fs
  | some (.program _) => throw .notPermitted
  | some (.file old) => return fs.put l (.file (if append then old ++ bytes else bytes))
  | none => return fs.put l (.file bytes)

/-- Makes directories down some names, where they are missing. -/
def makeDirectories : Files → Location → List String → Except FileFault (Files × Location)
  | fs, here, [] => .ok (fs, here)
  | fs, here, name :: rest =>
    if !fs.isDirectory here then .error .notDirectory
    else if name.isEmpty || name = "." then makeDirectories fs here rest
    else if name = ".." then makeDirectories fs here.dropLast rest
    else if greatestName < name.utf8ByteSize then .error .nameTooLong
    else if here.getLast? = some nameless then .error .notFound
    else if (fs.content? (here ++ [name])).isSome then makeDirectories fs (here ++ [name]) rest
    else makeDirectories (fs.put (here ++ [name]) .directory) (here ++ [name]) rest

def pathOf (l : Location) : String :=
  if l.isEmpty then "/" else String.join (l.map ("/" ++ ·))

end Files

end EditHook
