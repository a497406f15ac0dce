import EditHook.Rehearsal.Tools.Format
import EditHook.Rehearsal.Tools.Job

/-! Programs of a rehearsal that read files or their input and print some of it. -/

namespace EditHook

namespace Tool

open Job

/-- Prints what is made of the bytes at each operand. -/
def reading (name : String) (j : Job) (operands : List String)
    (make : List UInt8 → List UInt8) (complain : String → FileFault → String) : Done :=
  let d := j.forEach name 1 (sources operands) (fun fs o =>
    match j.bytesAt o with
    | .ok bytes => .ok (fs, make bytes)
    | .error f => .error (complain o f))
  { d with input := if (sources operands).contains "-" then [] else j.input }

def cat : Tool := fun j =>
  reading "cat" j (letters j.arguments).2 id (fun o f => o ++ ": " ++ f.reason)

def cannotOpen (path : String) (f : FileFault) : String :=
  match f with
  | .isDirectory => "error reading '" ++ path ++ "': Is a directory"
  | f => "cannot open '" ++ path ++ "' for reading: " ++ f.reason

/-- How much of a text is kept: lines or bytes, and whether they count from the start. -/
structure Extent where
  count : Nat
  ofBytes : Bool
  fromStart : Bool

def Extent.set (e : Extent) (ofBytes : Bool) (count : String) : Extent :=
  if count.startsWith "+" then ⟨((count.drop 1).toNat?).getD 0, ofBytes, true⟩
  else if count.startsWith "-" then ⟨((count.drop 1).toNat?).getD 0, ofBytes, e.fromStart⟩
  else ⟨(count.toNat?).getD 0, ofBytes, e.fromStart⟩

/-- The extent that some arguments ask for, and the operands. -/
def extent : Nat → Extent → List String → Extent × List String
  | 0, e, _ => (e, [])
  | _ + 1, e, [] => (e, [])
  | fuel + 1, e, a :: rest =>
    if a = "-n" || a = "-c" then extent fuel (e.set (a = "-c") (rest.headD "")) (rest.drop 1)
    else if a.startsWith "-n" || a.startsWith "-c" then
      extent fuel (e.set (a.startsWith "-c") (a.drop 2).toString) rest
    else if a.startsWith "-" && a != "-" then extent fuel (e.set false (a.drop 1).toString) rest
    else
      let (e, operands) := extent fuel e rest
      (e, a :: operands)

def defaultExtent : Extent := ⟨10, false, false⟩

def head : Tool := fun j =>
  let (e, operands) := extent (j.arguments.length + 1) defaultExtent j.arguments
  reading "head" j operands
    (fun bytes =>
      if e.ofBytes then bytes.take e.count else ((linesOf bytes).take e.count).flatten)
    cannotOpen

def last (n : Nat) (xs : List α) : List α :=
  xs.drop (xs.length - n)

def tail : Tool := fun j =>
  let (e, operands) := extent (j.arguments.length + 1) defaultExtent j.arguments
  let keep {α : Type} (xs : List α) : List α :=
    if e.fromStart then xs.drop (e.count - 1) else last e.count xs
  reading "tail" j operands
    (fun bytes => if e.ofBytes then keep bytes else (keep (linesOf bytes)).flatten) cannotOpen

def isSpace (b : UInt8) : Bool :=
  b == 0x20 || (0x09 ≤ b && b ≤ 0x0D)

def words (bytes : List UInt8) : Nat :=
  (bytes.foldl
    (fun (n, inside) b => if isSpace b then (n, false) else (if inside then n else n + 1, true))
    ((0, false) : Nat × Bool)).1

def wordCount : Tool := fun j =>
  let (options, operands) := letters j.arguments
  let options := if options.isEmpty then ['l', 'w', 'c'] else options
  let counts := fun (bytes : List UInt8) =>
    (if options.contains 'l' then [bytes.count 0x0A] else []) ++
      (if options.contains 'w' then [words bytes] else []) ++
      (if options.contains 'c' then [bytes.length] else [])
  let width :=
    if options.length = 1 then 1
    else if operands.isEmpty then 7
    else
      let sizes := operands.map (fun o => ((j.bytesAt o).toOption.getD []).length)
      (toString (sizes.foldl Nat.add 0)).length
  let column := fun (n : Nat) =>
    "".pushn ' ' (width - (toString n).length) ++ toString n
  let line := fun (ns : List Nat) (name : String) =>
    utf8 (" ".intercalate (ns.map column) ++ name ++ "\n")
  if operands.isEmpty then
    { j.print (line (counts j.input) "") with input := [] }
  else
    let d := j.forEach "wc" 1 operands (fun fs o =>
      match j.bytesAt o with
      | .ok bytes => .ok (fs, line (counts bytes) (" " ++ o))
      | .error f => .error (o ++ ": " ++ f.reason))
    if operands.length = 1 then d
    else
      let all := operands.map (fun o => (j.bytesAt o).toOption.getD [])
      { d with printed := d.printed ++ [(.output, line (counts all.flatten) " total")] }

/-- The lines of all operands, or the first fault. -/
def allLines (j : Job) (operands : List String) :
    Except (String × FileFault) (List (List UInt8)) := do
  let parts ← (sources operands).mapM (fun o =>
    match j.bytesAt o with
    | .ok bytes => .ok ((linesOf bytes).map (fun l => l.filter (· != 0x0A)))
    | .error f => .error (o, f))
  return parts.flatten

def withEnds (ls : List (List UInt8)) : List UInt8 :=
  ls.flatMap (· ++ [0x0A])

def numberOf (line : List UInt8) : Int :=
  let cs := (textOfBytes line).trimAscii.toString.toList
  let digits := fun (cs : List Char) =>
    Int.ofNat (((String.ofList (cs.takeWhile Char.isDigit)).toNat?).getD 0)
  match cs with
  | '-' :: cs => -digits cs
  | cs => digits cs

def sort : Tool := fun j =>
  let (options, operands) := letters j.arguments
  match allLines j operands with
  | .error (o, f) => j.refuse 2 ("sort: cannot read: " ++ o ++ ": " ++ f.reason)
  | .ok ls =>
    let before := fun (a b : List UInt8) =>
      if options.contains 'n' && numberOf a != numberOf b then numberOf a ≤ numberOf b else a ≤ b
    let ls := ls.mergeSort (fun a b => if options.contains 'r' then before b a else before a b)
    let ls := if options.contains 'u' then ls.eraseReps else ls
    { j.print (withEnds ls) with input := if operands.isEmpty then [] else j.input }

def uniq : Tool := fun j =>
  match allLines j (letters j.arguments).2 with
  | .error (o, f) => j.refuse 1 ("uniq: " ++ o ++ ": " ++ f.reason)
  | .ok ls => { j.print (withEnds ls.eraseReps) with input := [] }

/-- The numbers from one to another. -/
def counting : Nat → Int → Int → Int → List Int
  | 0, _, _, _ => []
  | fuel + 1, n, step, limit =>
    if (0 < step && limit < n) || (step < 0 && n < limit) || step = 0 then []
    else n :: counting fuel (n + step) step limit

def seq : Tool := fun j =>
  let run := fun (a step b : Int) =>
    let ns := counting ((b - a).natAbs + 1) a step b
    j.print (utf8 (String.join (ns.map (fun n => toString n ++ "\n"))))
  match j.arguments.map String.toInt? with
  | [some b] => run 1 1 b
  | [some a, some b] => run a 1 b
  | [some a, some step, some b] => run a step b
  | [] => j.refuse 1 "seq: missing operand\nTry 'seq --help' for more information."
  | _ =>
    match j.arguments.find? (fun a => a.toInt?.isNone) with
    | some a => j.refuse 1 ("seq: invalid floating point argument: '" ++ a ++
        "'\nTry 'seq --help' for more information.")
    | none => j.finish 1

def contains (part : List UInt8) : List UInt8 → Bool
  | [] => part.isEmpty
  | b :: rest => part.isPrefixOf (b :: rest) || contains part rest

def caseless (bytes : List UInt8) : List UInt8 :=
  bytes.map (fun b => if 0x41 ≤ b && b ≤ 0x5A then b + 0x20 else b)

/-- Prints the lines with a text in them, which may be tied to either end of the line. -/
def grep : Tool := fun j =>
  let (options, operands) := letters j.arguments
  match operands with
  | [] => j.refuse 2
      "Usage: grep [OPTION]... PATTERNS [FILE]...\nTry 'grep --help' for more information."
  | pattern :: files =>
    let fold := if options.contains 'i' then caseless else id
    let fixed := options.contains 'F'
    let atStart := !fixed && pattern.startsWith "^"
    let atEnd := !fixed && pattern.endsWith "$"
    let text := fold (utf8
      (((pattern.drop (if atStart then 1 else 0)).dropEnd (if atEnd then 1 else 0)).toString))
    let fits := fun (l : List UInt8) =>
      if atStart && atEnd then l == text
      else if atStart then text.isPrefixOf l
      else if atEnd then text.isSuffixOf l
      else contains text l
    let chosen := fun (l : List UInt8) => fits (fold l) != options.contains 'v'
    match allLines j files with
    | .error (o, f) => j.refuse 2 ("grep: " ++ o ++ ": " ++ f.reason)
    | .ok ls =>
      let ls := ls.filter chosen
      let code := if ls.isEmpty then 1 else 0
      let d := { j.finish code with input := if files.isEmpty then [] else j.input }
      if options.contains 'q' then d
      else if options.contains 'c' then
        { d with printed := [(.output, utf8 (toString ls.length ++ "\n"))] }
      else { d with printed := [(.output, withEnds ls)] }

/-- The bytes of a set with its ranges and escapes. -/
def byteSet : Nat → List UInt8 → List UInt8
  | 0, _ => []
  | _ + 1, [] => []
  | fuel + 1, a :: rest =>
    match rest with
    | 0x2D :: b :: rest =>
      (List.range (b.toNat + 1 - a.toNat)).map (fun n => UInt8.ofNat (a.toNat + n)) ++
        byteSet fuel rest
    | _ => a :: byteSet fuel rest

def unescapedSet : List Char → List UInt8
  | '\\' :: c :: rest =>
    (match c with
      | 'n' => [0x0A]
      | 't' => [0x09]
      | '0' => [0x00]
      | c => String.utf8EncodeChar c) ++ unescapedSet rest
  | c :: rest => String.utf8EncodeChar c ++ unescapedSet rest
  | [] => []

def setOf (text : String) : List UInt8 :=
  let bytes := unescapedSet text.toList
  byteSet (bytes.length + 1) bytes

/-- Replaces bytes of a first set by those of a second, whose last one stands for all beyond. -/
def tr : Tool := fun j =>
  let (options, operands) := letters j.arguments
  match operands with
  | [a] =>
    if options.contains 'd' then
      { j.print (j.input.filter (fun b => !(setOf a).contains b)) with input := [] }
    else j.refuse 1 ("tr: missing operand after '" ++ a ++
      "'\nTwo strings must be given when translating.\nTry 'tr --help' for more information.")
  | a :: b :: _ =>
    let source := setOf a
    let target := setOf b
    let pairs := source.zip
      (target ++ List.replicate (source.length - target.length) (target.getLastD 0))
    { j.print (j.input.map (fun x => (pairs.lookup x).getD x)) with input := [] }
  | [] => j.refuse 1 "tr: missing operand\nTry 'tr --help' for more information."

/-- How many lines are printed at most where nothing else ends them. -/
def greatestRepetition : Nat := 20000

def yes : Tool := fun j =>
  let line := utf8 ((if j.arguments.isEmpty then "y" else " ".intercalate j.arguments) ++ "\n")
  j.print (List.replicate greatestRepetition line).flatten

end Tool

end EditHook
