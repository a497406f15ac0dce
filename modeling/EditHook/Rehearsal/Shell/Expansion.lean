import EditHook.Rehearsal.Shell.Arithmetic
import EditHook.Rehearsal.Shell.Session
import EditHook.Rehearsal.Shell.Token
import EditHook.Rehearsal.Shell.Wildcard

/-! From words to fields in the rehearsal's shell: parameters, arithmetic and printed output are put
in, what they came to is split at separators, and wildcards are replaced by the files they stand
for. -/

namespace EditHook

namespace Shell

/-- A piece of an expanded word. -/
inductive Glyph where
  | char (c : Char) (isQuoted isResult : Bool)
  /-- Something quoted stands here, so the field is there even if it is empty. -/
  | quote
  /-- One field ends and the next one starts. -/
  | cut
  deriving DecidableEq, Repr

/-- What it takes to expand: a session, and a complaint where it cannot be done. -/
abbrev Expansion := StateT Session (Except String)

namespace Glyph

def ofText (isQuoted isResult : Bool) (text : String) : List Glyph :=
  let cs := text.toList.map (fun c => char c isQuoted isResult)
  if isQuoted then quote :: cs else cs

def asResult : Glyph → Glyph
  | char c q _ => char c q true
  | g => g

def char? : Glyph → Option Char
  | char c _ _ => some c
  | _ => none

def written? : Glyph → Option Wildcard.Written
  | char c q _ => some (c, q)
  | _ => none

end Glyph

def plainText (gs : List Glyph) : String :=
  String.ofList (gs.filterMap Glyph.char?)

/-- The arguments, each a field of its own. -/
def argumentGlyphs (isQuoted : Bool) (arguments : List String) : List Glyph :=
  ((arguments.map (Glyph.ofText isQuoted true)).intersperse [.cut]).flatten

namespace Expansion

/-- The parts of the operand of a parameter. Outside of quotes blanks and operators are text. -/
def operandParts : Nat → List Char → Word
  | 0, _ => []
  | fuel + 1, cs =>
    match wordParts (cs.length + 1) cs with
    | some (ps, c :: rest) => ps ++ .text (String.ofList [c]) false :: operandParts fuel rest
    | some (ps, []) => ps
    | none => [.text (String.ofList cs) false]

def operandWord (isQuoted : Bool) (text : String) : Word :=
  let cs := text.toList
  if isQuoted then ((quotedParts none (cs.length + 1) cs).map (·.1)).getD []
  else operandParts (cs.length + 1) cs

def plainParameter (name : String) (isQuoted : Bool) : Expansion (List Glyph) := do
  let s ← get
  if name = "@" then return argumentGlyphs isQuoted s.arguments
  else if name = "*" then
    if isQuoted then
      let separator := (s.separators.head?.map (fun c => String.ofList [c])).getD ""
      return Glyph.ofText true true (separator.intercalate s.arguments)
    else return argumentGlyphs false s.arguments
  else
    match s.parameter? name with
    | some v => return Glyph.ofText isQuoted true v
    | none =>
      if s.stopsOnUnset && name != "!" then throw (name ++ ": parameter not set")
      else return Glyph.ofText isQuoted true ""

/-- Whether a parameter counts as set, where an empty one may count as unset. -/
def isSet (s : Session) (name : String) (emptyCounts : Bool) : Bool :=
  let value := if name = "@" || name = "*" then s.arguments.head? else s.parameter? name
  match value with
  | some v => emptyCounts || !v.isEmpty
  | none => false

def operated (expand : Word → Expansion (List Glyph)) (name operator operand : String)
    (isQuoted : Bool) : Expansion (List Glyph) := do
  let s ← get
  let present := isSet s name (!operator.startsWith ":")
  let value := (s.parameter? name).getD ""
  let given := do return (← expand (operandWord isQuoted operand)).map Glyph.asResult
  match operator.toList.getLast? with
  | some '-' => if present then plainParameter name isQuoted else given
  | some '+' => if present then given else return Glyph.ofText isQuoted true ""
  | some '=' =>
    if present then plainParameter name isQuoted
    else
      let text := plainText (← given)
      modify (fun s => s.assign name text)
      return Glyph.ofText isQuoted true text
  | some '?' =>
    if present then plainParameter name isQuoted
    else
      let text := plainText (← given)
      let usual := "parameter not set" ++ (if operator.startsWith ":" then " or null" else "")
      throw (name ++ ": " ++ (if text.isEmpty then usual else text))
  | some c =>
    let pattern := Wildcard.ofWritten
      ((← expand (operandWord false operand)).filterMap Glyph.written?)
    let cut := if c = '#' then Wildcard.withoutFront else Wildcard.withoutEnd
    return Glyph.ofText isQuoted true
      (String.ofList (cut (operator.length = 2) pattern value.toList))
  | none => return []

def calculated (expand : Word → Expansion (List Glyph)) (expression : String) :
    Expansion String := do
  let text := plainText (← expand (operandWord true expression))
  let s ← get
  let look := fun n =>
    match ((s.parameter? n).getD "0").toInt? with
    | some n => n
    | none => 0
  match Arithmetic.value look text with
  | .ok n => return toString n
  | .error d => throw ("arithmetic expression: " ++ d.message ++ ": \"" ++ text ++ "\"")

def withoutLastBreaks (text : String) : String :=
  String.ofList (text.toList.reverse.dropWhile (· == '\n')).reverse

def part (printed : String → Session → String × Session) (expand : Word → Expansion (List Glyph)) :
    Part → Expansion (List Glyph)
  | .text t q => return Glyph.ofText q false t
  | .parameter name "" _ q => plainParameter name q
  | .parameter name operator operand q => operated expand name operator operand q
  | .length name q => do
    let s ← get
    let size :=
      if name = "@" || name = "*" then s.arguments.length
      else ((s.parameter? name).getD "").utf8ByteSize
    return Glyph.ofText q true (toString size)
  | .arithmetic e q => do return Glyph.ofText q true (← calculated expand e)
  | .output script q => do
    let (text, s) := printed script (← get)
    set s
    return Glyph.ofText q true (withoutLastBreaks text)

/-- How deep operands may stand in operands. -/
def greatestDepth : Nat := 100

def glyphs (printed : String → Session → String × Session) : Nat → Word → Expansion (List Glyph)
  | 0, _ => return []
  | fuel + 1, w => do return (← w.mapM (part printed (glyphs printed fuel))).flatten

/-- Glyphs split into fields, the last one first, and the field that is still open. -/
structure Split where
  closed : List (List Glyph)
  current : Option (List Glyph)

namespace Split

def close (x : Split) : Split :=
  match x.current with
  | some gs => ⟨gs.reverse :: x.closed, none⟩
  | none => x

def add (separators : List Char) (x : Split) (g : Glyph) : Split :=
  match g with
  | .cut => x.close
  | .quote => { x with current := some (x.current.getD []) }
  | .char c isQuoted isResult =>
    if isResult && !isQuoted && separators.contains c then
      if c.isWhitespace then x.close else Split.close ⟨x.closed, some (x.current.getD [])⟩
    else { x with current := some (g :: x.current.getD []) }

end Split

def fields (separators : List Char) (gs : List Glyph) : List (List Glyph) :=
  (gs.foldl (Split.add separators) ⟨[], none⟩).close.closed.reverse

/-- The paths that a pattern stands for, found name by name from a location. -/
def paths (fs : Files) : Location → String → List (List Wildcard.Written) → List String
  | _, path, [] => [path]
  | l, path, [] :: rest => paths fs l (path ++ "/") rest
  | l, path, name :: rest =>
    let next := fun (n : String) =>
      match fs.walk l [n] with
      | .ok l => paths fs l (path ++ n ++ (if rest.isEmpty then "" else "/")) rest
      | .error _ => []
    if Wildcard.isWild name then
      let ps := Wildcard.ofWritten name
      let hidden := name.head?.map (·.1) = some '.'
      let fits := fun (n : String) =>
        Wildcard.accepts ps n.toList && (hidden || !n.startsWith ".")
      ((fs.inside l).filter fits).mergeSort (fun a b => utf8 a ≤ utf8 b) |>.flatMap next
    else next (String.ofList (name.map (·.1)))

/-- Splits a pattern at its slashes. -/
def patternNames : List Wildcard.Written → List (List Wildcard.Written)
  | [] => [[]]
  | c :: rest =>
    if c.1 = '/' then [] :: patternNames rest
    else
      match patternNames rest with
      | [] => [[c]]
      | n :: more => (c :: n) :: more

/-- The texts that a field comes to. -/
def texts (s : Session) (field : List Glyph) : List String :=
  let pattern := field.filterMap Glyph.written?
  if Wildcard.isWild pattern then
    let names := patternNames pattern
    let start := if names.head? = some [] then [] else s.here
    match paths s.files start "" names with
    | [] => [plainText field]
    | found => found
  else [plainText field]

/-- Whether a word is nothing but all arguments in quotes, which is no field without arguments. -/
def isAllArguments (w : Word) : Bool :=
  w.any (fun p => p matches .parameter "@" "" _ true) &&
    w.all (fun p => p matches .parameter "@" "" _ true || p == .text "" true)

def wordFields (printed : String → Session → String × Session) (w : Word) :
    Expansion (List String) := do
  let gs ← glyphs printed greatestDepth w
  let s ← get
  if isAllArguments w && s.arguments.isEmpty then return []
  else return (fields s.separators gs).flatMap (texts s)

/-- The text of a word that is not split. -/
def wordText (printed : String → Session → String × Session) (w : Word) : Expansion String := do
  return plainText (← glyphs printed greatestDepth w)

/-- A word as a pattern. -/
def wordPattern (printed : String → Session → String × Session) (w : Word) :
    Expansion (List Wildcard.Sign) := do
  return Wildcard.ofWritten ((← glyphs printed greatestDepth w).filterMap Glyph.written?)

end Expansion

end Shell

end EditHook
