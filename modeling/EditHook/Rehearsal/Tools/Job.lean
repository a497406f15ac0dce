import EditHook.Files.Store

/-! Programs that a rule may name, as functions from what they are given to what they leave. They
stand in for the system's in a rehearsal; no theorem is about what they do. -/

namespace EditHook

inductive Channel where
  | output
  | complaint
  deriving DecidableEq, Repr

structure Job where
  arguments : List String
  input : List UInt8
  files : Files
  here : Location

/-- What a program leaves. The parts stand in the order in which they were printed. -/
structure Done where
  code : Nat
  printed : List (Channel × List UInt8)
  files : Files
  /-- What it did not read of its input. -/
  input : List UInt8

abbrev Tool := Job → Done

namespace Job

def finish (j : Job) (code : Nat) : Done :=
  ⟨code, [], j.files, j.input⟩

def print (j : Job) (bytes : List UInt8) : Done :=
  { j.finish 0 with printed := [(.output, bytes)] }

def refuse (j : Job) (code : Nat) (message : String) : Done :=
  { j.finish code with printed := [(.complaint, utf8 (message ++ "\n"))] }

/-- The bytes that an operand names, where a dash is the input. -/
def bytesAt (j : Job) (path : String) : Except FileFault (List UInt8) :=
  if path = "-" then .ok j.input else j.files.read j.here path

/-- The operands, or the input where there are none. -/
def sources (operands : List String) : List String :=
  if operands.isEmpty then ["-"] else operands

/-- Does something for each operand in turn. A failure stops nothing but shows in the code. -/
def forEach (j : Job) (name : String) (code : Nat) (operands : List String)
    (act : Files → String → Except String (Files × List UInt8)) : Done :=
  operands.foldl
    (fun d o =>
      match act d.files o with
      | .ok (fs, []) => { d with files := fs }
      | .ok (fs, bytes) => { d with files := fs, printed := d.printed ++ [(.output, bytes)] }
      | .error m =>
        { d with code := code,
                 printed := d.printed ++ [(.complaint, utf8 (name ++ ": " ++ m ++ "\n"))] })
    (j.finish 0)

/-- Takes the single letters in front that start with a dash, and the operands. -/
def letters : List String → List Char × List String
  | [] => ([], [])
  | a :: rest =>
    if a = "--" then ([], rest)
    else if a.startsWith "-" && a != "-" then
      let more := letters rest
      (a.toList.drop 1 ++ more.1, more.2)
    else
      let more := letters rest
      (more.1, a :: more.2)

end Job

/-- Lines with their ends. The last one may lack it. -/
def linesOf (bytes : List UInt8) : List (List UInt8) :=
  bytes.foldr
    (fun b ls =>
      if b = 0x0A then [b] :: ls
      else
        match ls with
        | [] => [[b]]
        | l :: ls => (b :: l) :: ls)
    []

end EditHook
