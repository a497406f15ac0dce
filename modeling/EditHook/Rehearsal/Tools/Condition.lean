import EditHook.Rehearsal.Tools.Job

/-! Conditions on texts, numbers and files, as lists of words, for the programs of a rehearsal. -/

namespace EditHook

namespace Condition

/-- Why some words are no condition. -/
inductive Defect where
  | notNumber (word : String)
  | unexpected (word : String)
  | missing (word : String)
  deriving DecidableEq, Repr

namespace Defect

def message : Defect → String
  | notNumber w => "Illegal number: " ++ w
  | unexpected w => w ++ ": unexpected operator"
  | missing w => w ++ ": argument expected"

end Defect

def number (word : String) : Except Defect Int :=
  match word.trimAscii.toString.toInt? with
  | some n => .ok n
  | none => .error (.notNumber word)

def tests : List String :=
  ["-n", "-z", "-e", "-f", "-d", "-s", "-r", "-w", "-x", "-h", "-L", "-t"]

def contentAt? (fs : Files) (here : Location) (path : String) : Option Content :=
  match fs.locate here path with
  | .ok l => fs.content? l
  | .error _ => none

def holds (fs : Files) (here : Location) (test word : String) : Bool :=
  let content := contentAt? fs here word
  match test with
  | "-n" => !word.isEmpty
  | "-z" => word.isEmpty
  | "-e" => content.isSome
  | "-f" => fs.isFile here word
  | "-d" => content == some .directory
  | "-s" => fs.isFile here word && (fs.read here word).toOption != some []
  | "-r" => content.isSome
  | "-w" => content.isSome
  | "-x" =>
    match content with
    | some .directory => true
    | some (.program _) => true
    | _ => false
  | _ => false

def comparisons : List String :=
  ["=", "==", "!=", "<", ">", "-eq", "-ne", "-lt", "-le", "-gt", "-ge"]

def compares (comparison a b : String) : Except Defect Bool := do
  match comparison with
  | "=" => return a == b
  | "==" => return a == b
  | "!=" => return a != b
  | "<" => return a < b
  | ">" => return b < a
  | "-eq" => return (← number a) == (← number b)
  | "-ne" => return (← number a) != (← number b)
  | "-lt" => return (← number a) < (← number b)
  | "-le" => return (← number a) ≤ (← number b)
  | "-gt" => return (← number b) < (← number a)
  | _ => return (← number b) ≤ (← number a)

mutual

/-- The value of the words in front up to one that joins conditions, and what follows. -/
def operand (fs : Files) (here : Location) :
    Nat → List String → Except Defect (Bool × List String)
  | 0, _ => .ok (false, [])
  | fuel + 1, ws => do
    match ws with
    | a :: o :: b :: rest =>
      if comparisons.contains o then return (← compares o a b, rest)
      else single fs here fuel a (o :: b :: rest)
    | a :: rest => single fs here fuel a rest
    | [] => throw (.missing "")

def single (fs : Files) (here : Location) :
    Nat → String → List String → Except Defect (Bool × List String)
  | 0, _, _ => .ok (false, [])
  | fuel + 1, a, rest => do
    match a, rest with
    | _, [] => return (!a.isEmpty, [])
    | "!", rest =>
      let (v, rest) ← operand fs here fuel rest
      return (!v, rest)
    | "(", rest =>
      let (v, rest) ← alternative fs here fuel rest
      return (v, rest.drop 1)
    | _, b :: rest =>
      if tests.contains a then return (holds fs here a b, rest)
      else return (!a.isEmpty, b :: rest)

def conjunction (fs : Files) (here : Location) :
    Nat → List String → Except Defect (Bool × List String)
  | 0, _ => .ok (false, [])
  | fuel + 1, ws => do
    let (v, rest) ← operand fs here fuel ws
    match rest with
    | "-a" :: rest =>
      let (w, rest) ← conjunction fs here fuel rest
      return (v && w, rest)
    | _ => return (v, rest)

def alternative (fs : Files) (here : Location) :
    Nat → List String → Except Defect (Bool × List String)
  | 0, _ => .ok (false, [])
  | fuel + 1, ws => do
    let (v, rest) ← conjunction fs here fuel ws
    match rest with
    | "-o" :: rest =>
      let (w, rest) ← alternative fs here fuel rest
      return (v || w, rest)
    | _ => return (v, rest)

end

/-- Whether some words hold. No words do not. -/
def value (fs : Files) (here : Location) (words : List String) : Except Defect Bool := do
  if words.isEmpty then return false
  let (v, rest) ← alternative fs here (4 * words.length + 4) words
  match rest with
  | [] => return v
  | w :: _ => throw (.unexpected w)

/-- The code and the complaint of a command that is named `name` and checks a condition. In brackets
the last word closes it. -/
def verdict (name : String) (fs : Files) (here : Location) (words : List String) :
    Nat × Option String :=
  let body :=
    if name != "[" then some words
    else if words.getLast? = some "]" then some words.dropLast
    else none
  match body with
  | none => (2, some "missing ]")
  | some words =>
    match value fs here words with
    | .ok v => (if v then 0 else 1, none)
    | .error d => (2, some d.message)

end Condition

end EditHook
