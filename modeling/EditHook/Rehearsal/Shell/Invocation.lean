import EditHook.Rehearsal.Shell.Builtin
import EditHook.Rehearsal.Shell.Expansion
import EditHook.Rehearsal.Tools.Table

/-! Simple commands of the rehearsal's shell: expansion, redirection, and the search for what to
run. How the scripts inside of them run is a parameter. -/

namespace EditHook

namespace Shell

abbrev Runner := Script → Session → Flow × Session

namespace Session

def evaluate (again : Runner) (text : String) (s : Session) : Flow × Session :=
  match Script.ofText text with
  | .ok script => again script s
  | .error e => { s with line := e.line }.abort ("Syntax error: " ++ e.reason)

/-- What a text prints as a script of its own. -/
def printed (again : Runner) (text : String) (s : Session) : String × Session :=
  let (n, inner) := s.openStream
  let (_, part) := evaluate again text (inner.pointTo 1 (.stream n))
  (textOfBytes (part.printedTo n), (s.afterPart part).closeStream n)

/-- How a directory that is not there is told of. -/
def openReason (missing : String) : FileFault → String
  | .notFound => missing
  | .notDirectory => missing
  | f => f.reason

def descriptorOf? (path : String) : Option Nat :=
  [("/dev/stdout", 1), ("/dev/stderr", 2)].lookup path

/-- Points a descriptor to where another one leads. -/
def follow (s : Session) (descriptor n : Nat) : Except String Session :=
  match s.targets.lookup n with
  | some t => .ok (s.pointTo descriptor t)
  | none => if n = 0 then .ok s else .error (toString n ++ ": Bad file descriptor")

def readFile (s : Session) (descriptor : Nat) (path : String) : Except String Session :=
  match s.files.read s.here path with
  | .ok bytes => .ok (if descriptor = 0 then s.readFrom bytes else s)
  | .error .isDirectory => .ok (s.readFrom [])
  | .error f => .error ("cannot open " ++ path ++ ": " ++ openReason "No such file" f)

/-- Points a descriptor to a file, which is emptied unless it is written behind. -/
def writeFile (s : Session) (descriptor : Nat) (behind : Bool) (path : String) :
    Except String Session :=
  let opened := do
    let fs ← s.files.write s.here path behind []
    return (fs, ← fs.locate s.here path)
  match opened with
  | .ok (fs, l) => .ok ({ s with files := fs }.pointTo descriptor (.file l))
  | .error f => .error ("cannot create " ++ path ++ ": " ++ openReason "Directory nonexistent" f)

def redirect (s : Session) (r : Redirect) (target : String) : Except String Session :=
  match r.direction, descriptorOf? target with
  | .from, _ => s.readFile r.descriptor target
  | .like, _ =>
    if target = "-" then .ok { s with targets := s.targets.filter (·.1 != r.descriptor) }
    else
      match target.toNat? with
      | none => .error "Syntax error: Bad fd number"
      | some n => s.follow r.descriptor n
  | _, some n => s.follow r.descriptor n
  | d, none => s.writeFile r.descriptor (d == .behind) target

def redirectAll (again : Runner) : List Redirect → Session → Except String Session
  | [], s => .ok s
  | r :: rs, s => do
    let (target, s) ← (Expansion.wordText (printed again) r.target).run s
    redirectAll again rs (← s.redirect r target)

/-- The program that a name leads to, or the status and the complaint where it leads to none. -/
def program (s : Session) (name : String) : Except (Nat × String) String :=
  let at? : String → Except FileFault (Option Content) := fun path =>
    (s.files.locate s.here path).map s.files.content?
  if name.toList.contains '/' then
    match at? name with
    | .ok (some (.program p)) => .ok p
    | .ok _ => .error (126, name ++ ": Permission denied")
    | .error f => .error (127, name ++ ": " ++ openReason "not found" f)
  else
    let directories := ((s.bindings.lookup "PATH").getD "").splitOn ":"
    let found := directories.findSome? (fun d =>
      match at? (d ++ "/" ++ name) with
      | .ok (some (.program p)) => some p
      | _ => none)
    match found with
    | some p => if name.isEmpty then .error (127, ": not found") else .ok p
    | none => .error (127, name ++ ": not found")

def shells : List String :=
  ["sh", "dash"]

/-- Runs what is set to run at the end. -/
def closing (again : Runner) (flow : Flow) (s : Session) : Flow × Session :=
  match flow with
  | .killed n => (.killed n, s)
  | _ =>
    match s.traps.lookup "EXIT" with
    | none => (.next, s)
    | some handler =>
      let status := s.status
      match evaluate again handler { s with traps := [] } with
      | (.exits, s) => (.next, s)
      | (.killed n, s) => (.killed n, s)
      | (_, s) => (.next, s.withStatus status)

def launch (again : Runner) (arguments : List String) (s : Session) : Flow × Session :=
  let options := arguments.takeWhile Builtin.isOption
  let operands := arguments.drop options.length
  let operands := if operands.head? = some "--" then operands.drop 1 else operands
  let s := options.foldl Builtin.setOptions (s.assign "PWD" (Files.pathOf s.here))
  let lost := s.here.getLast? = some Files.nameless
  let s :=
    if lost then { s with line := 0 }.complain "getcwd() failed: No such file or directory" else s
  let start := fun (text : String) (s : Session) =>
    let (flow, s) := evaluate again text { s with line := 1 }
    closing again flow s
  if options.any (fun o => o.toList.contains 'c') then
    match operands with
    | [] => { s with line := 0 }.abort "-c requires an argument"
    | text :: rest =>
      start text { s with name := rest.headD s.name, arguments := rest.drop 1 }
  else
    match operands with
    | [] => start (textOfBytes s.unread) (s.leave [])
    | path :: rest =>
      match s.files.read s.here path with
      | .ok bytes => start (textOfBytes bytes) { s with name := path, arguments := rest }
      | .error .isDirectory => (.next, s.withStatus 0)
      | .error f => { s with line := 0 }.abort
          ("cannot open " ++ path ++ ": " ++ openReason "No such file" f)

/-- Runs a program. A shell gets the exported variables only. -/
def runProgram (again : Runner) (program invoked : String) (arguments : List String) (s : Session) :
    Flow × Session :=
  if shells.contains program then
    launch again arguments
      { s with
        name := invoked, arguments := [], functions := [], traps := [], status := 0, line := 1,
        bindings := s.bindings.filter (fun v => s.exported.contains v.1),
        stopsOnFailure := false, stopsOnUnset := false, checked := false }
  else
    match Tool.named? program with
    | some tool => (.next, s.use tool arguments)
    | none => (.next, s.withStatus 0)

/-- Runs a program as a part and tells of a signal that ended it. -/
def runPart (again : Runner) (name : String) (arguments : List String) (s : Session) :
    Flow × Session :=
  match s.program name with
  | .error (status, m) => s.fail status m
  | .ok p =>
    let (flow, part) := runProgram again p name arguments s
    let after := s.afterPart part
    match flow with
    | .killed n =>
      let text := ((Signal.ofNumber? n).map (·.description)).getD ""
      (.next, (if text.isEmpty then after else after.print 2 (utf8 (text ++ "\n"))).withStatus
        (128 + n))
    | _ => (.next, after)

def withValuesOf (before : Session) (names : List String) (s : Session) : Session :=
  { s with
    bindings := before.bindings.filter (fun v => names.contains v.1) ++
      s.bindings.filter (fun v => !names.contains v.1),
    exported := before.exported }

def assignAll (s : Session) (assigned : List (String × String)) : Session :=
  assigned.foldl (fun s a => s.assign a.1 a.2) s

/-- Runs a command that is no function. -/
def invoke (again : Runner) (assigned : List (String × String)) (name : String)
    (arguments : List String) (s : Session) : Flow × Session :=
  let inner := s.assignAll assigned
  let names := assigned.map (·.1)
  if name = "exec" then
    match arguments with
    | [] => (.next, inner.withStatus 0)
    | program :: arguments =>
      match inner.program program with
      | .error (status, m) => (.exits, (inner.complain ("exec: " ++ m)).withStatus status)
      | .ok p =>
        let (flow, part) := runProgram again p program arguments inner
        (match flow with | .killed n => .killed n | _ => .exits,
          { inner.afterPart part with traps := [] })
  else
    match Builtin.named? (evaluate again) name with
    | some b =>
      let (flow, after) := b arguments inner
      (flow, if Builtin.special.contains name then after else s.withValuesOf names after)
    | none =>
      let (flow, after) :=
        runPart again name arguments { inner with exported := names ++ inner.exported }
      (flow, s.withValuesOf names after)

/-- The path of a command, or its name where the shell runs it itself. -/
def whereIs (s : Session) (name : String) : Option String :=
  if (Builtin.named? (fun _ s => (.next, s)) name).isSome || name = "exec" ||
      (s.functions.lookup name).isSome then some name
  else
    match s.program name with
    | .error _ => none
    | .ok _ => some (if name.toList.contains '/' then name else "/usr/bin/" ++ name)

/-- Runs a command with its redirections in place. -/
def dispatch (again : Runner) (assigned : List (String × String)) (name : String)
    (arguments : List String) (s : Session) : Flow × Session :=
  match s.functions.lookup name with
  | some body =>
    let (flow, after) := again body { s.assignAll assigned with arguments := arguments }
    (match flow with | .returns => .next | f => f,
      { s.withValuesOf (assigned.map (·.1)) after with arguments := s.arguments })
  | none =>
    if name = "command" then
      match arguments with
      | "-v" :: names =>
        match names.filterMap s.whereIs with
        | [] => (.next, s.withStatus 127)
        | found => (.next, (s.print 1 (utf8 (Tool.lines found))).withStatus 0)
      | program :: arguments => invoke again assigned program arguments s
      | [] => (.next, s.withStatus 0)
    else invoke again assigned name arguments s

/-- Whether a word puts in what a script prints. -/
def takesOutput (w : Word) : Bool :=
  w.any (fun p => p matches .output ..)

def command (again : Runner) (line : Nat) (assigned : List (String × Word)) (words : List Word)
    (redirects : List Redirect) (s : Session) : Flow × Session :=
  let s := { s with line := line }
  let expansion : Expansion (List (List String) × List (String × String)) := do
    let fields ← words.mapM (Expansion.wordFields (printed again))
    let values ← assigned.mapM (fun a => do
      return (a.1, ← Expansion.wordText (printed again) a.2))
    return (fields, values)
  match expansion.run s with
  | .error m => s.abort m
  | .ok ((fields, values), s) =>
    match fields.flatten with
    | [] =>
      match redirectAll again redirects s with
      | .error m => s.fail 2 m
      | .ok opened =>
        let after := (s.restoring opened).assignAll values
        (.next, if words.any takesOutput || assigned.any (fun a => takesOutput a.2) then after
          else after.withStatus 0)
    | name :: arguments =>
      match redirectAll again redirects s with
      | .error m => if Builtin.special.contains name then s.abort m else s.fail 2 m
      | .ok opened =>
        let (flow, after) := dispatch again values name arguments opened
        (flow, if name = "exec" && arguments.isEmpty then after else s.restoring after)

end Session

end Shell

end EditHook
