import EditHook.Rehearsal.Tools.Job

/-! Programs of a rehearsal that list, make and remove files and directories. -/

namespace EditHook

namespace Tool

open Job

/-- What a program says that was called without anything to work on. -/
def missingOperand (j : Job) (name : String) : Done :=
  j.refuse 1 (name ++ ": missing operand\nTry '" ++ name ++ " --help' for more information.")

/-- Changes files for each operand. A fault is told with what could not be done. -/
def changing (j : Job) (name failure : String) (operands : List String)
    (act : Files → String → Except String Files) : Done :=
  if operands.isEmpty then missingOperand j name
  else
    j.forEach name 1 operands (fun fs o =>
      match act fs o with
      | .ok fs => .ok (fs, [])
      | .error reason => .error (failure ++ " '" ++ o ++ "': " ++ reason))

def withoutSlash (path : String) : String :=
  let cs := (path.toList.reverse.dropWhile (· == '/')).reverse
  if cs.isEmpty then path else String.ofList cs

def makeDirectory (j : Job) : Done :=
  let (options, operands) := letters j.arguments
  changing j "mkdir" "cannot create directory" operands (fun fs o =>
    if options.contains 'p' then
      match fs.makeDirectories (Files.start j.here o) (Files.namesOf o) with
      | .ok (fs, l) => if fs.isDirectory l then .ok fs else .error "File exists"
      | .error f => .error f.reason
    else
      match fs.destination j.here (withoutSlash o) with
      | .error f => .error f.reason
      | .ok l =>
        if (fs.content? l).isSome then .error "File exists" else .ok (fs.put l .directory))

/-- Removes a location and all below it. -/
def eraseAll (fs : Files) (l : Location) : Files :=
  ⟨fs.contents.filter (fun x => !l.isPrefixOf x.1)⟩

def removeDirectory (j : Job) : Done :=
  changing j "rmdir" "failed to remove" (letters j.arguments).2 (fun fs o =>
    match fs.locate j.here o with
    | .error f => .error f.reason
    | .ok l =>
      if !fs.isDirectory l then .error FileFault.notDirectory.reason
      else if (fs.inside l).isEmpty then .ok (fs.erase l) else .error "Directory not empty")

def remove (j : Job) : Done :=
  let (options, operands) := letters j.arguments
  let force := options.contains 'f'
  if operands.isEmpty && force then j.finish 0
  else
    changing j "rm" "cannot remove" operands (fun fs o =>
      match fs.locate j.here o with
      | .error f => if force && f == .notFound then .ok fs else .error f.reason
      | .ok l =>
        if !fs.isDirectory l then .ok (fs.erase l)
        else if options.contains 'r' || options.contains 'R' then .ok (eraseAll fs l)
        else .error FileFault.isDirectory.reason)

def touch (j : Job) : Done :=
  let (_, operands) := letters j.arguments
  if operands.isEmpty then
    j.refuse 1 "touch: missing file operand\nTry 'touch --help' for more information."
  else
    changing j "touch" "cannot touch" operands (fun fs o =>
      match fs.destination j.here o with
      | .error f => .error f.reason
      | .ok l => .ok (if (fs.content? l).isSome then fs else fs.put l (.file [])))

def sortedNames (names : List String) : List String :=
  names.mergeSort (fun a b => utf8 a ≤ utf8 b)

def lines (names : List String) : String :=
  String.join (names.map (· ++ "\n"))

/-- The names to list in a directory. -/
def listed (hidden : Bool) (fs : Files) (l : Location) : String :=
  let names := sortedNames (fs.inside l)
  lines (if hidden then "." :: ".." :: names else names.filter (fun n => !n.startsWith "."))

def list (j : Job) : Done :=
  let (options, operands) := letters j.arguments
  let operands := if operands.isEmpty then ["."] else sortedNames operands
  let located := operands.map (fun (o : String) => (o, j.files.locate j.here o))
  let bad := located.filterMap (fun (o, l) =>
    match l with
    | .error f => some ("ls: cannot access '" ++ o ++ "': " ++ f.reason ++ "\n")
    | .ok _ => none)
  let isPlain := fun (l : Location) => !j.files.isDirectory l || options.contains 'd'
  let plain := located.filterMap (fun (o, l) =>
    match l with
    | .ok l => if isPlain l then some o else none
    | .error _ => none)
  let blocks := located.filterMap (fun (o, l) =>
    match l with
    | .ok l =>
      if isPlain l then none
      else some ((if operands.length = 1 then "" else o ++ ":\n") ++
        listed (options.contains 'a') j.files l)
    | .error _ => none)
  let parts := (if plain.isEmpty then [] else [lines plain]) ++ blocks
  { j.finish (if bad.isEmpty then 0 else 2) with
    printed := bad.map (fun m => (.complaint, utf8 m)) ++
      (if parts.isEmpty then [] else [(.output, utf8 ("\n".intercalate parts))]) }

def baseName (path : String) : String :=
  (withoutSlash path).toList.reverse.takeWhile (· != '/') |>.reverse |> String.ofList

/-- Puts what a file holds somewhere else, under its own name where that is a directory. -/
def transferring (name : String) (isMove : Bool) (j : Job) : Done :=
  match (letters j.arguments).2 with
  | [a, b] =>
    let target := if j.files.isDirectory ((j.files.locate j.here b).toOption.getD ["\x00"]) then
      b ++ "/" ++ baseName a else b
    match j.files.locate j.here a with
    | .error f => j.refuse 1 (name ++ ": cannot stat '" ++ a ++ "': " ++ f.reason)
    | .ok l =>
      match j.files.read j.here a with
      | .error _ => j.refuse 1 (name ++ ": -r not specified; omitting directory '" ++ a ++ "'")
      | .ok bytes =>
        match j.files.write j.here target false bytes with
        | .error f =>
          j.refuse 1 (name ++ ": cannot create regular file '" ++ target ++ "': " ++ f.reason)
        | .ok fs => { j.finish 0 with files := if isMove then fs.erase l else fs }
  | _ => j.refuse 1 (name ++ ": missing file operand\nTry '" ++ name ++
      " --help' for more information.")

def tee (j : Job) : Done :=
  let (options, operands) := letters j.arguments
  let d := j.forEach "tee" 1 operands (fun fs o =>
    match fs.write j.here o (options.contains 'a') j.input with
    | .ok fs => .ok (fs, [])
    | .error f => .error (o ++ ": " ++ f.reason))
  { d with printed := d.printed ++ [(.output, j.input)], input := [] }

end Tool

end EditHook
