import EditHook.CommandLine.Options
import EditHook.CommandLine.Similar

/-! Reading the command line. An argument is looked at when it comes and taken when the next one
comes, so a mistake in the form of an argument is found before a mistake in the value in front of it.
Behind two hyphens everything is a file or an extra argument, whatever it looks like. -/

namespace EditHook

/-- An argument as the system hands it over. -/
abbrev Argument := List UInt8

namespace CommandLine

/-- What has been looked at and is still to be taken. -/
inductive Pending where
  | nothing
  /-- An option, and its value if that has come. -/
  | setting (s : Setting) (value : Option Argument)
  | file (a : Argument)
  | extra (as : List Argument)
  deriving DecidableEq, Repr

structure State where
  /-- Two hyphens have come. -/
  trailing : Bool
  pending : Pending
  file : Option String
  extra : List String
  config : Option RawPath
  level : Option LogLevel
  /-- What has been taken, as far as the usage line names it. -/
  used : List Usable
  deriving DecidableEq, Repr

namespace State

def start : State :=
  ⟨false, .nothing, none, [], none, none, []⟩

def options (st : State) : Options :=
  ⟨st.file, st.extra, st.config, st.level.getD .info⟩

def isUsed (st : State) (u : Usable) : Bool :=
  st.used.contains u

/-- What counts as used once the pending argument counts too, right or wrong. An option that comes
again is no longer counted. -/
def usedSoFar (st : State) : List Usable :=
  match st.pending with
  | .setting s (some _) =>
    if st.isUsed (.setting s) then st.used.filter (· != .setting s) else st.used ++ [.setting s]
  | .file _ => st.used ++ [.file]
  | _ => st.used

end State

def textOf (a : Argument) : Except Request String :=
  match textOfBytes? a with
  | some s => .ok s
  | none => .error (.refuse .notText)

def takeLevel (st : State) (value : Argument) : Except Request State :=
  match (textOfBytes? value).bind LogLevel.ofName? with
  | some l => .ok { st with level := some l }
  | none =>
    .error (.refuse (.badLevel (textOfBytes value)
      (Similar.best? (textOfBytes value) LogLevel.names)))

/-- Takes an option with its value. Each option can be given once. -/
def takeSetting (st : State) (s : Setting) (value : Argument) : Except Request State :=
  if st.isUsed (.setting s) then .error (.refuse (.repeated s))
  else
    let st := { st with used := st.used ++ [.setting s] }
    match s with
    | .config =>
      if value.isEmpty then .error (.refuse (.missingValue .config))
      else .ok { st with config := some ⟨value⟩ }
    | .logLevel => takeLevel st value

def settle (st : State) : Except Request State :=
  let rest := { st with pending := .nothing }
  match st.pending with
  | .nothing => .ok rest
  | .setting s none => .error (.refuse (.missingValue s))
  | .setting s (some v) => takeSetting rest s v
  | .file a => do
    let file ← textOf a
    return { rest with file := some file, used := rest.used ++ [.file] }
  | .extra as => do
    let extra ← as.mapM textOf
    return { rest with extra := rest.extra ++ extra }

/-- An argument that stands by itself: the file if there is none yet. -/
def positional (st : State) (a : Argument) : Except Request State :=
  match st.pending with
  | .extra as => .ok { st with pending := .extra (as ++ [a]) }
  | _ => do
    let st ← settle st
    return { st with pending := if st.file.isNone then .file a else .extra [a] }

/-- The error of an option that does not exist. One that may have been meant counts as used. -/
def unknownLong (st : State) (name : String) : Misuse :=
  let similar := Similar.best? name longNames
  let used := st.usedSoFar
  let meant := (similar.bind usableOf?).toList.filter (fun u => !used.contains u)
  .unknown ("--" ++ name) similar (used ++ meant)

/-- An argument with two hyphens in front. -/
def long (st : State) (name : Argument) (value : Option Argument) : Except Request State :=
  let text := textOfBytes name
  match (textOfBytes? name).bind settingOf?, (textOfBytes? name).bind inquiryOf? with
  | some s, _ => do
    let st ← settle st
    match value with
    | some v => takeSetting st s v
    | none => return { st with pending := .setting s none }
  | none, some i =>
    match value with
    | some v =>
      .error (.refuse (.unexpectedValue (textOfBytes v) i (st.used ++ [.inquiry i])))
    | none => do
      let _ ← settle st
      throw (.answer i)
  | none, none => .error (.refuse (unknownLong st text))

/-- An argument with one hyphen in front. Its first letter decides. -/
def short (st : State) (letters : Argument) : Except Request State :=
  match Decoded.front letters with
  | .char c _ =>
    if c = 'h' || c = 'V' then do
      let _ ← settle st
      throw (.answer (if c = 'h' then .help else .version))
    else .error (.refuse (.unknown (String.ofList ['-', c]) none []))
  | .bad _ => .error (.refuse (.unknown ("-" ++ textOfBytes letters) none []))

def hyphen : UInt8 := 0x2D

def equalsSign : UInt8 := 0x3D

def attached (a : Argument) : Option Argument :=
  if a.contains equalsSign then some ((a.dropWhile (· != equalsSign)).drop 1) else none

/-- An argument that does not start with a hyphen, or is a hyphen alone. -/
def plain (st : State) (a : Argument) : Except Request State :=
  match st.pending with
  | .setting s none => .ok { st with pending := .setting s (some a) }
  | _ => positional st a

def step (st : State) (a : Argument) : Except Request State :=
  if st.trailing then positional st a
  else
    match a with
    | x :: y :: rest =>
      if x = hyphen && y = hyphen then
        if rest.isEmpty then .ok { st with trailing := true }
        else long st (rest.takeWhile (· != equalsSign)) (attached rest)
      else if x = hyphen then short st (y :: rest)
      else plain st a
    | _ => plain st a

def read (arguments : List Argument) : Request :=
  match arguments.foldlM step .start >>= settle with
  | .ok st => .run st.options
  | .error r => r

end CommandLine

end EditHook
