import EditHook.Rehearsal.Shell.Script

/-! The tokens of a script of the rehearsal's shell: words, operators and line breaks. -/

namespace EditHook

namespace Shell

inductive Token where
  | word (w : Word)
  | operator (s : String)
  | lineBreak
  /-- The number of a descriptor right before a redirection. -/
  | descriptor (n : Nat)
  deriving DecidableEq, Repr

structure PlacedToken where
  line : Nat
  token : Token
  deriving DecidableEq, Repr

def isNameStart (c : Char) : Bool :=
  c.isAlpha || c == '_'

def isNamePart (c : Char) : Bool :=
  isNameStart c || c.isDigit

/-- Parameters with a name of one sign. -/
def isSpecial (c : Char) : Bool :=
  c.isDigit || ['@', '*', '#', '?', '$', '!', '-'].contains c

def lineBreaks (cs : List Char) : Nat :=
  cs.count '\n'

/-- Characters up to `close` at depth zero, past quotes and further pairs, and what follows. -/
def enclosed (opener close : Char) : Nat → Nat → List Char → Option (List Char × List Char)
  | 0, _, _ => none
  | _ + 1, _, [] => none
  | fuel + 1, depth, c :: rest =>
    let keep := fun (taken : List Char) (rest : List Char) (depth : Nat) =>
      (enclosed opener close fuel depth rest).map (fun r => (taken ++ r.1, r.2))
    if c = '\\' then
      match rest with
      | d :: rest => keep [c, d] rest depth
      | [] => none
    else if c = '\x27' then
      keep (c :: rest.takeWhile (· != '\x27') ++ ['\x27'])
        ((rest.dropWhile (· != '\x27')).drop 1) depth
    else if c = close then
      if depth = 0 then some ([], rest) else keep [c] rest (depth - 1)
    else if c = opener then keep [c] rest (depth + 1)
    else keep [c] rest depth

/-- The operators behind a name in braces. -/
def parameterOperators : List String :=
  [":-", ":=", ":+", ":?", "##", "%%", "-", "=", "+", "?", "#", "%"]

/-- A parameter written inside braces. -/
def braced (inner : List Char) (isQuoted : Bool) : Part :=
  match inner with
  | '#' :: c :: rest =>
    if isNameStart c || isSpecial c then .length (String.ofList (c :: rest)) isQuoted
    else .parameter "#" "" "" isQuoted
  | _ =>
    let name :=
      match inner with
      | c :: _ => if isNameStart c then inner.takeWhile isNamePart else inner.take 1
      | [] => []
    let rest := String.ofList (inner.drop name.length)
    match parameterOperators.find? (fun o => rest.startsWith o) with
    | some o =>
      .parameter (String.ofList name) o (String.ofList (rest.toList.drop o.length)) isQuoted
    | none => .parameter (String.ofList name) "" "" isQuoted

/-- The part that starts with a dollar sign, from behind the sign. -/
def dollar (isQuoted : Bool) (cs : List Char) : Option (Part × List Char) :=
  match cs with
  | '(' :: '(' :: rest =>
    (enclosed '(' ')' (rest.length + 1) 1 rest).map (fun r =>
      (.arithmetic (String.ofList (r.1.reverse.drop 1).reverse) isQuoted, r.2))
  | '(' :: rest =>
    (enclosed '(' ')' (rest.length + 1) 0 rest).map (fun r =>
      (.output (String.ofList r.1) isQuoted, r.2))
  | '\x7b' :: rest =>
    (enclosed '\x7b' '\x7d' (rest.length + 1) 0 rest).map (fun r => (braced r.1 isQuoted, r.2))
  | c :: rest =>
    if isNameStart c then
      some (.parameter (String.ofList (cs.takeWhile isNamePart)) "" "" isQuoted,
        cs.dropWhile isNamePart)
    else if isSpecial c then some (.parameter (String.ofList [c]) "" "" isQuoted, rest)
    else some (.text "$" isQuoted, cs)
  | [] => some (.text "$" isQuoted, [])

/-- The parts inside double quotes up to the closing one, or to the end where `close` is none. -/
def quotedParts (close : Option Char) : Nat → List Char → Option (Word × List Char)
  | 0, _ => none
  | _ + 1, [] => if close.isNone then some ([], []) else none
  | fuel + 1, c :: rest =>
    let text := fun (s : List Char) (rest : List Char) =>
      (quotedParts close fuel rest).map (fun r => (Part.text (String.ofList s) true :: r.1, r.2))
    if some c = close then some ([.text "" true], rest)
    else if c = '\\' then
      match rest with
      | '\n' :: rest => quotedParts close fuel rest
      | d :: rest =>
        if ['$', '\x60', '"', '\\'].contains d then text [d] rest else text [c, d] rest
      | [] => text [c] []
    else if c = '$' then
      match dollar true rest with
      | some (p, rest) => (quotedParts close fuel rest).map (fun r => (p :: r.1, r.2))
      | none => none
    else if c = '\x60' then
      (quotedParts close fuel ((rest.dropWhile (· != '\x60')).drop 1)).map (fun r =>
        (.output (String.ofList (rest.takeWhile (· != '\x60'))) true :: r.1, r.2))
    else text [c] rest

def isBlank (c : Char) : Bool :=
  c == ' ' || c == '\t'

/-- Characters that end a word. -/
def endsWord (c : Char) : Bool :=
  isBlank c || ['\n', ';', '&', '|', '<', '>', '(', ')'].contains c

def wordParts : Nat → List Char → Option (Word × List Char)
  | 0, _ => none
  | _ + 1, [] => some ([], [])
  | fuel + 1, c :: rest =>
    let more := fun (ps : Word) (rest : List Char) =>
      (wordParts fuel rest).map (fun r => (ps ++ r.1, r.2))
    if endsWord c then some ([], c :: rest)
    else if c = '\x27' then
      if rest.contains '\x27' then
        more [.text (String.ofList (rest.takeWhile (· != '\x27'))) true]
          ((rest.dropWhile (· != '\x27')).drop 1)
      else none
    else if c = '"' then
      match quotedParts (some '"') (rest.length + 1) rest with
      | some (ps, rest) => more ps rest
      | none => none
    else if c = '\\' then
      match rest with
      | '\n' :: rest => more [] rest
      | d :: rest => more [.text (String.ofList [d]) true] rest
      | [] => more [.text "\\" true] []
    else if c = '$' then
      match dollar false rest with
      | some (p, rest) => more [p] rest
      | none => none
    else if c = '\x60' then
      more [.output (String.ofList (rest.takeWhile (· != '\x60'))) false]
        ((rest.dropWhile (· != '\x60')).drop 1)
    else more [.text (String.ofList [c]) false] rest

/-- Joins texts that stand side by side. -/
def joined : Word → Word
  | .text a p :: .text b q :: rest =>
    if p = q then joined (.text (a ++ b) q :: rest)
    else .text a p :: joined (.text b q :: rest)
  | p :: rest => p :: joined rest
  | [] => []
termination_by w => w.length

def plain? : Word → Option String
  | [.text s false] => some s
  | _ => none

/-- The longest first. -/
def operators : List String :=
  ["&&", "||", ";;", ">>", ">&", "<&", "&", "|", ";", "<", ">", "(", ")"]

def tokens : Nat → Nat → List Char → Except ScriptError (List PlacedToken)
  | 0, _, _ => .ok []
  | _ + 1, _, [] => .ok []
  | fuel + 1, line, c :: rest =>
    if isBlank c then tokens fuel line rest
    else if c = '\n' then do return ⟨line, .lineBreak⟩ :: (← tokens fuel (line + 1) rest)
    else if c = '#' then tokens fuel line (rest.dropWhile (· != '\n'))
    else if c = '\\' && rest.head? = some '\n' then tokens fuel (line + 1) (rest.drop 1)
    else
      match operators.find? (fun o => o.toList.isPrefixOf (c :: rest)) with
      | some o => do return ⟨line, .operator o⟩ :: (← tokens fuel line ((c :: rest).drop o.length))
      | none =>
        match wordParts (rest.length + 2) (c :: rest) with
        | none => .error ⟨line, "Unterminated quoted string"⟩
        | some (ps, after) => do
          let used := (c :: rest).take ((c :: rest).length - after.length)
          let more ← tokens fuel (line + lineBreaks used) after
          let isRedirect := after.head? = some '<' || after.head? = some '>'
          let token :=
            match used with
            | [d] => if d.isDigit && isRedirect then .descriptor (d.toNat - '0'.toNat)
                      else .word (joined ps)
            | _ => .word (joined ps)
          return ⟨line, token⟩ :: more

end Shell

end EditHook
