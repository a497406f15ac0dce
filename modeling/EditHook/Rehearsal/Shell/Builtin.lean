import EditHook.Rehearsal.Shell.Reader
import EditHook.Rehearsal.Shell.Session
import EditHook.Rehearsal.Shell.Signal
import EditHook.Rehearsal.Tools.Condition
import EditHook.Rehearsal.Tools.Format

/-! Commands that the rehearsal's shell runs itself, because they work on the session. -/

namespace EditHook

namespace Shell

/-- A command on a session. -/
abbrev Builtin := List String → Session → Flow × Session

namespace Builtin

def done (s : Session) : Flow × Session :=
  (.next, s.withStatus 0)

def leastStatus (n : Nat) : Nat :=
  n % 256

/-- Runs something with the status that an argument gives, or the one there is. -/
def withStatusOf (name : String) (flow : Flow) : Builtin
  | [], s => (flow, s)
  | a :: _, s =>
    match a.toNat? with
    | some n => (flow, s.withStatus (leastStatus n))
    | none => s.abort (name ++ ": Illegal number: " ++ a)

def leaving (name : String) (flow : Nat → Flow) : Builtin
  | [], s => (flow 1, s.withStatus 0)
  | a :: _, s =>
    match a.toNat? with
    | some (n + 1) => (flow (n + 1), s.withStatus 0)
    | _ => s.abort (name ++ ": Illegal number: " ++ a)

def echo : Builtin
  | "-n" :: texts, s => done (s.print 1 (Format.echoed true false texts))
  | texts, s => done (s.print 1 (Format.echoed true true texts))

def printf : Builtin
  | [], s => s.fail 2 "printf: usage: printf format [arg ...]"
  | "--" :: rest, s => printf rest s
  | format :: texts, s =>
    let (bytes, bad) := Format.printed (texts.length + 1) format texts
    let s := bad.foldl (fun s b => s.complain ("printf: " ++ b ++ ": expected numeric value")) s
    (.next, (s.print 1 bytes).withStatus (if bad.isEmpty then 0 else 1))

def condition (name : String) : Builtin := fun words s =>
  match Condition.verdict name s.files s.here words with
  | (code, none) => (.next, s.withStatus code)
  | (code, some m) => s.fail code (name ++ ": " ++ m)

def currentPath (s : Session) : String :=
  (s.parameter? "PWD").getD (Files.pathOf s.here)

/-- A path without dots, as far as its names go. -/
def tidied (here path : String) : String :=
  let names := (Files.namesOf (if path.startsWith "/" then path else here ++ "/" ++ path)).foldl
    (fun (ns : List String) n =>
      if n.isEmpty || n = "." then ns else if n = ".." then ns.dropLast else ns ++ [n]) []
  Files.pathOf names

def changeDirectory : Builtin := fun arguments s =>
  let arguments := arguments.filter (fun a => a != "-P" && a != "-L" && a != "--")
  let target := (arguments.head?.getD ((s.bindings.lookup "HOME").getD ""))
  let path := if target = "-" then (s.bindings.lookup "OLDPWD").getD "." else target
  if path.isEmpty then done s
  else
    match s.files.locate s.here path with
    | .ok l =>
      if s.files.isDirectory l then
        let old := currentPath s
        let s := ({ s with here := l }.assign "OLDPWD" old).assign "PWD" (tidied old path)
        done (if target = "-" then s.print 1 (utf8 (currentPath s ++ "\n")) else s)
      else s.fail 2 ("cd: can't cd to " ++ path)
    | .error _ => s.fail 2 ("cd: can't cd to " ++ path)

/-- A line with its escapes resolved, where an escaped line break joins two lines. Escaped characters
do not separate. -/
def inputLine (raw : Bool) : Nat → List UInt8 → List (UInt8 × Bool) × List UInt8 × Bool
  | 0, rest => ([], rest, false)
  | _ + 1, [] => ([], [], false)
  | fuel + 1, b :: rest =>
    if b = 0x0A then ([], rest, true)
    else if b = 0x5C && !raw then
      match rest with
      | 0x0A :: rest => inputLine raw fuel rest
      | c :: rest =>
        let (more, rest, ended) := inputLine raw fuel rest
        ((c, true) :: more, rest, ended)
      | [] => ([], [], false)
    else
      let (more, rest, ended) := inputLine raw fuel rest
      ((b, false) :: more, rest, ended)

/-- Gives each name a field of a line, and the last one all that is left. -/
def spread (isSeparator : UInt8 × Bool → Bool) :
    List String → List (UInt8 × Bool) → List (String × String)
  | [], _ => []
  | [name], line =>
    let line := line.dropWhile isSeparator
    [(name, textOfBytes ((line.reverse.dropWhile isSeparator).reverse.map (·.1)))]
  | name :: names, line =>
    let line := line.dropWhile isSeparator
    let field := line.takeWhile (fun b => !isSeparator b)
    (name, textOfBytes (field.map (·.1))) ::
      spread isSeparator names ((line.drop field.length).drop 1)

def read : Builtin := fun arguments s =>
  let raw := arguments.contains "-r"
  let names := arguments.filter (fun a => a != "-r" && a != "--")
  if names.isEmpty then s.fail 2 "read: arg count"
  else
    let bytes := s.unread
    let (line, rest, ended) := inputLine raw (bytes.length + 1) bytes
    let separators := utf8 (String.ofList s.separators)
    let s := (spread (fun b => !b.2 && separators.contains b.1) names line).foldl
      (fun s a => s.assign a.1 a.2) (s.leave rest)
    (.next, s.withStatus (if ended then 0 else 1))

def shift : Builtin := fun arguments s =>
  match (arguments.headD "1").toNat? with
  | none => s.abort ("shift: Illegal number: " ++ arguments.headD "1")
  | some n =>
    if s.arguments.length < n then s.abort "shift: can't shift that many"
    else done { s with arguments := s.arguments.drop n }

/-- Turns options on or off by their letters. -/
def setOption (s : Session) (on : Bool) (letter : Char) : Session :=
  match letter with
  | 'e' => { s with stopsOnFailure := on }
  | 'u' => { s with stopsOnUnset := on }
  | _ => s

def setOptions (s : Session) (text : String) : Session :=
  (text.toList.drop 1).foldl (fun s c => setOption s (text.startsWith "-") c) s

def isOption (a : String) : Bool :=
  (a.startsWith "-" || a.startsWith "+") && 1 < a.length && a != "--"

def set : Builtin
  | [], s => done s
  | "--" :: rest, s => done { s with arguments := rest }
  | a :: rest, s =>
    if isOption a then
      let s := setOptions s a
      if rest.isEmpty then done s else set rest s
    else done { s with arguments := a :: rest }

/-- A name, and a value if an equals sign follows the name. -/
def named (text : String) : String × Option String :=
  let name := text.toList.takeWhile (· != '=')
  (String.ofList name,
    if text.toList.contains '=' then some (String.ofList (text.toList.drop (name.length + 1)))
    else none)

def declare (exports : Bool) : Builtin := fun arguments s =>
  done (arguments.foldl
    (fun s a =>
      let (name, value) := named a
      let s := match value with | some v => s.assign name v | none => s
      if exports && !s.exported.contains name then { s with exported := name :: s.exported } else s)
    s)

def unset : Builtin := fun arguments s =>
  let functions := arguments.contains "-f"
  let names := arguments.filter (fun a => !a.startsWith "-")
  done (if functions then { s with functions := s.functions.filter (fun f => !names.contains f.1) }
    else { s with bindings := s.bindings.filter (fun v => !names.contains v.1) })

/-- The signal that some arguments name, and the processes. -/
def signalled : List String → Option String × List String
  | "-s" :: name :: rest => (some name, rest)
  | "-n" :: name :: rest => (some name, rest)
  | a :: rest =>
    if a.startsWith "-" && 1 < a.length then (some (a.drop 1).toString, rest) else (none, a :: rest)
  | [] => (none, [])

def kill (evaluate : String → Session → Flow × Session) : Builtin := fun arguments s =>
  let (name, processes) := signalled arguments
  let signal? := match name with | some n => Signal.number? n | none => some Signal.terminate
  match signal?, processes with
  | none, _ => s.fail 2 ("kill: invalid signal number or name: " ++ name.getD "")
  | some _, [] => s.fail 2
      "kill: Usage: kill [-s sigspec | -signum | -sigspec] [pid | job]... or\nkill -l [exitstatus]"
  | some n, process :: _ =>
    if some process != s.parameter? "$" && process != "0" then s.fail 1 "kill: No such process"
    else if n = 0 then done s
    else
      let s := s.withStatus 0
      match if n = Signal.unstoppable then none else s.traps.lookup (toString n) with
      | some handler => evaluate handler s
      | none =>
        if ((Signal.ofNumber? n).map (·.ends)).getD true then (.killed n, s) else (.next, s)

def trap : Builtin
  | [], s => done s
  | [name], s => done { s with traps := s.traps.filter (·.1 != Signal.key name) }
  | handler :: names, s =>
    let keys := names.map Signal.key
    let others := s.traps.filter (fun t => !keys.contains t.1)
    done { s with traps :=
      (if handler = "-" then [] else keys.map (fun k => (k, handler))) ++ others }

/-- Builtins whose failed redirections end the script. -/
def special : List String :=
  [":", ".", "break", "continue", "eval", "exec", "exit", "export", "readonly", "return", "set",
    "shift", "times", "trap", "unset"]

def source (evaluate : String → Session → Flow × Session) : Builtin
  | [], s => s.abort ".: filename argument required"
  | path :: _, s =>
    if !path.toList.contains '/' then s.abort (".: " ++ path ++ ": not found")
    else
      match s.files.read s.here path with
      | .error _ => s.abort (".: cannot open " ++ path ++ ": No such file")
      | .ok bytes =>
        match evaluate (textOfBytes bytes) (s.withStatus 0) with
        | (.returns, s) => (.next, s)
        | r => r

def named? (evaluate : String → Session → Flow × Session) (name : String) : Option Builtin :=
  [(":", fun _ s => done s), ("true", fun _ s => done s),
    ("false", fun _ s => (.next, s.withStatus 1)), ("echo", echo), ("printf", printf),
    ("pwd", fun _ s => done (s.print 1 (utf8 (currentPath s ++ "\n")))), ("cd", changeDirectory),
    ("test", condition "test"), ("[", condition "["), ("read", read),
    ("exit", withStatusOf "exit" .exits), ("return", withStatusOf "return" .returns),
    ("break", leaving "break" .breaks), ("continue", leaving "continue" .continues),
    ("shift", shift), ("set", set), ("export", declare true), ("readonly", declare false),
    ("local", declare false), ("unset", unset), ("kill", kill evaluate), ("trap", trap),
    ("wait", fun _ s => done s), ("times", fun _ s => done s),
    ("umask", fun _ s => done s),
    ("eval", fun arguments s => evaluate (" ".intercalate arguments) (s.withStatus 0)),
    (".", source evaluate)].lookup name

end Builtin

end Shell

end EditHook
