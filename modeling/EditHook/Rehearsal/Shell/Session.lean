import EditHook.Rehearsal.Shell.Script
import EditHook.Rehearsal.Tools.Job

/-! What a running script of the rehearsal's shell works on. Whatever it prints goes to numbered
streams or to files, and it reads from numbered inputs, so that parts of a script can share them. -/

namespace EditHook

namespace Shell

/-- How a script goes on after a command. -/
inductive Flow where
  | next
  | exits
  | returns
  | breaks (levels : Nat)
  | continues (levels : Nat)
  /-- A signal ended the process. -/
  | killed (signal : Nat)
  deriving DecidableEq, Repr

/-- Where a descriptor leads to. -/
inductive Target where
  | stream (n : Nat)
  | file (l : Location)
  deriving DecidableEq, Repr

structure Session where
  files : Files
  here : Location
  /-- The parts that were printed, the last one first. -/
  streams : List (Nat × List (List UInt8))
  inputs : List (Nat × List UInt8)
  input : Nat
  targets : List (Nat × Target)
  /-- The least number that no stream and no input has. -/
  unused : Nat
  bindings : List (String × String)
  exported : List String
  functions : List (String × Script)
  traps : List (String × String)
  name : String
  arguments : List String
  status : Nat
  line : Nat
  stopsOnFailure : Bool
  stopsOnUnset : Bool
  /-- A failure is being checked, so it does not stop the script. -/
  checked : Bool

namespace Session

def outputNumber : Nat := 0

def complaintNumber : Nat := 1

def inputNumber : Nat := 2

def defaultPath : String :=
  "/usr/local/sbin:/usr/local/bin:/usr/sbin:/usr/bin:/sbin:/bin"

/-- A session with an empty input that prints to two streams. -/
def fresh (files : Files) (here : Location) (environment : List (String × String)) : Session where
  files := files
  here := here
  streams := [(outputNumber, []), (complaintNumber, [])]
  inputs := [(inputNumber, [])]
  input := inputNumber
  targets := [(1, .stream outputNumber), (2, .stream complaintNumber)]
  unused := inputNumber + 1
  bindings := environment
  exported := environment.map (·.1)
  functions := []
  traps := []
  name := "sh"
  arguments := []
  status := 0
  line := 1
  stopsOnFailure := false
  stopsOnUnset := false
  checked := false

def withStatus (s : Session) (n : Nat) : Session :=
  { s with status := n }

/-- All that was printed to a stream. -/
def printedTo (s : Session) (n : Nat) : List UInt8 :=
  ((s.streams.lookup n).getD []).reverse.flatten

def print (s : Session) (descriptor : Nat) (bytes : List UInt8) : Session :=
  match s.targets.lookup descriptor with
  | some (.stream n) =>
    { s with streams := s.streams.map (fun x => if x.1 = n then (n, bytes :: x.2) else x) }
  | some (.file l) =>
    match s.files.content? l with
    | some (.file old) => { s with files := s.files.put l (.file (old ++ bytes)) }
    | _ => s
  | none => s

/-- Says what went wrong, and where. -/
def complain (s : Session) (message : String) : Session :=
  s.print 2 (utf8 (s.name ++ ": " ++ toString s.line ++ ": " ++ message ++ "\n"))

def fail (s : Session) (status : Nat) (message : String) : Flow × Session :=
  (.next, (s.complain message).withStatus status)

/-- Complains and ends the script. -/
def abort (s : Session) (message : String) : Flow × Session :=
  (.exits, (s.complain message).withStatus 2)

def unread (s : Session) : List UInt8 :=
  (s.inputs.lookup s.input).getD []

def leave (s : Session) (rest : List UInt8) : Session :=
  { s with inputs := s.inputs.map (fun x => if x.1 = s.input then (x.1, rest) else x) }

def openStream (s : Session) : Nat × Session :=
  (s.unused, { s with streams := (s.unused, []) :: s.streams, unused := s.unused + 1 })

def closeStream (s : Session) (n : Nat) : Session :=
  { s with streams := s.streams.filter (·.1 != n) }

/-- Reads from other bytes from now on. -/
def readFrom (s : Session) (bytes : List UInt8) : Session :=
  { s with inputs := (s.unused, bytes) :: s.inputs, input := s.unused, unused := s.unused + 1 }

def pointTo (s : Session) (descriptor : Nat) (t : Target) : Session :=
  { s with targets := (descriptor, t) :: s.targets.filter (·.1 != descriptor) }

def assign (s : Session) (name value : String) : Session :=
  { s with bindings := (name, value) :: s.bindings.filter (·.1 != name) }

/-- Goes on as `s` after a part of it ran on its own: only what lies outside of it has changed. -/
def afterPart (s part : Session) : Session :=
  { s with
    files := part.files, streams := part.streams, unused := part.unused, status := part.status,
    inputs := part.inputs.filter (fun x => x.1 < s.unused) }

/-- The same descriptors as before a command. -/
def restoring (before after : Session) : Session :=
  { after with targets := before.targets, input := before.input,
               inputs := after.inputs.filter (fun x => x.1 < before.unused) }

/-- The value of a parameter that is not one of the lists of arguments. -/
def parameter? (s : Session) (name : String) : Option String :=
  match name with
  | "#" => some (toString s.arguments.length)
  | "?" => some (toString s.status)
  | "$" => some "4242"
  | "-" => some ""
  | "!" => none
  | "0" => some s.name
  | _ =>
    match name.toNat? with
    | some n => s.arguments[n - 1]?
    | none => s.bindings.lookup name

def separators (s : Session) : List Char :=
  ((s.bindings.lookup "IFS").getD " \t\n").toList

def use (s : Session) (tool : Tool) (arguments : List String) : Session :=
  let d := tool ⟨arguments, s.unread, s.files, s.here⟩
  let s := { s with files := d.files }.leave d.input
  (d.printed.foldl
    (fun s p => s.print (match p.1 with | .output => 1 | .complaint => 2) p.2) s).withStatus d.code

end Session

end Shell

end EditHook
