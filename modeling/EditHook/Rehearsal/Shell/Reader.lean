import EditHook.Rehearsal.Shell.Token

/-! Reading a script of the rehearsal's shell from its tokens. Reserved words count only where a
command may start. -/

namespace EditHook

namespace Shell

abbrev Tokens := List PlacedToken

/-- A result and the tokens that are still to be read. -/
abbrev Taken (α : Type) := α × Tokens

def lineOf : Tokens → Nat
  | t :: _ => t.line
  | [] => 1

def Token.describe : Token → String
  | word w => "word" ++ (match plain? w with | some s => " " ++ s | none => "")
  | operator s => "\"" ++ s ++ "\""
  | lineBreak => "newline"
  | descriptor n => toString n

def unexpected : Tokens → Except ScriptError α
  | t :: _ =>
    .error ⟨t.line,
      (match t.token with
        | .word w =>
          match plain? w with
          | some s => "\"" ++ s ++ "\""
          | none => "word"
        | other => other.describe) ++ " unexpected"⟩
  | [] => .error ⟨1, "end of file unexpected"⟩

def reserved : List String :=
  ["if", "then", "elif", "else", "fi", "while", "until", "do", "done", "for", "in", "case", "esac",
    "\x7b", "\x7d", "!"]

def reserved? : Tokens → Option String
  | ⟨_, .word w⟩ :: _ => (plain? w).filter reserved.contains
  | _ => none

def operator? : Tokens → Option String
  | ⟨_, .operator s⟩ :: _ => some s
  | _ => none

def skipBreaks (ts : Tokens) : Tokens :=
  ts.dropWhile (fun t => t.token == .lineBreak)

/-- Takes a reserved word. -/
def expect (word : String) (ts : Tokens) : Except ScriptError Tokens :=
  if reserved? ts = some word then .ok (ts.drop 1)
  else
    match ts with
    | [] => .error ⟨1, "end of file unexpected (expecting \"" ++ word ++ "\")"⟩
    | _ => unexpected ts

def redirection? : String → Option Direction
  | "<" => some .from
  | ">" => some .into
  | ">>" => some .behind
  | ">&" => some .like
  | "<&" => some .like
  | _ => none

def redirect? (ts : Tokens) : Except ScriptError (Option (Redirect × Tokens)) :=
  let (number, ts) : Option Nat × Tokens :=
    match ts with
    | ⟨_, .descriptor n⟩ :: rest => (some n, rest)
    | _ => (none, ts)
  match ts with
  | ⟨_, .operator s⟩ :: rest =>
    match redirection? s with
    | some d =>
      match rest with
      | ⟨_, .word w⟩ :: rest =>
        .ok (some (⟨number.getD (if s.startsWith "<" then 0 else 1), d, w⟩, rest))
      | ⟨_, .descriptor n⟩ :: rest =>
        .ok (some (⟨number.getD (if s.startsWith "<" then 0 else 1), d, [.text (toString n) false]⟩,
          rest))
      | other => unexpected other
    | none => .ok none
  | _ => .ok none

def redirects : Nat → Tokens → Except ScriptError (Taken (List Redirect))
  | 0, ts => .ok ([], ts)
  | fuel + 1, ts => do
    match ← redirect? ts with
    | some (r, rest) =>
      let (rs, rest) ← redirects fuel rest
      return (r :: rs, rest)
    | none => return ([], ts)

/-- The name and the value of a word that assigns. -/
def assignment? : Word → Option (String × Word)
  | .text s false :: rest =>
    let name := s.toList.takeWhile (· != '=')
    if s.toList.contains '=' && (name.head?.map isNameStart).getD false && name.all isNamePart then
      let value := s.toList.drop (name.length + 1)
      some (String.ofList name,
        if value.isEmpty then rest else .text (String.ofList value) false :: rest)
    else none
  | _ => none

/-- Reads words and redirections up to the end of a simple command. -/
def simpleWith : Nat → List (String × Word) → List Word → List Redirect → Nat → Tokens →
    Except ScriptError (Taken Script)
  | 0, as, ws, rs, line, ts => .ok (.command line as ws rs, ts)
  | fuel + 1, as, ws, rs, line, ts => do
    match ← redirect? ts with
    | some (r, rest) => simpleWith fuel as ws (rs ++ [r]) line rest
    | none =>
      match ts with
      | ⟨_, .word w⟩ :: rest =>
        match if ws.isEmpty then assignment? w else none with
        | some a => simpleWith fuel (as ++ [a]) ws rs line rest
        | none => simpleWith fuel as (ws ++ [w]) rs line rest
      | _ =>
        if as.isEmpty && ws.isEmpty && rs.isEmpty then unexpected ts
        else return (.command line as ws rs, ts)

/-- The words up to the end of a line or a semicolon. -/
def wordsOfLine : Tokens → List Word × Tokens
  | ⟨_, .word w⟩ :: rest =>
    let more := wordsOfLine rest
    (w :: more.1, more.2)
  | ts => ([], ts)

/-- The patterns of a choice up to the closing bracket. -/
def patterns : Nat → Tokens → Except ScriptError (Taken (List Word))
  | 0, ts => unexpected ts
  | fuel + 1, ts =>
    match ts with
    | ⟨_, .word w⟩ :: ⟨_, .operator ")"⟩ :: rest => .ok ([w], rest)
    | ⟨_, .word w⟩ :: ⟨_, .operator "|"⟩ :: rest => do
      let (ws, rest) ← patterns fuel rest
      return (w :: ws, rest)
    | ⟨_, .operator "("⟩ :: rest => patterns fuel rest
    | _ => unexpected ts

/-- Whether a list of commands ends here. -/
def endsList (ts : Tokens) : Bool :=
  ts.isEmpty || operator? ts = some ")" || operator? ts = some ";;" ||
    (match reserved? ts with
      | some s => ["then", "elif", "else", "fi", "do", "done", "esac", "\x7d"].contains s
      | none => false)

mutual

def sequence : Nat → Tokens → Except ScriptError (Taken Script)
  | 0, ts => unexpected ts
  | fuel + 1, ts => do
    let ts := skipBreaks ts
    if endsList ts then return (.nothing, ts)
    let (first, rest) ← chain fuel ts
    match rest with
    | ⟨_, .lineBreak⟩ :: rest =>
      let (more, rest) ← sequence fuel rest
      return (.next first more, rest)
    | ⟨_, .operator ";"⟩ :: rest =>
      let (more, rest) ← sequence fuel rest
      return (.next first more, rest)
    | ⟨_, .operator "&"⟩ :: rest =>
      let (more, rest) ← sequence fuel rest
      return (.next (.isolated first []) more, rest)
    | rest =>
      if endsList rest then return (first, rest) else unexpected rest

/-- Reads pipelines that depend on each other. -/
def chain : Nat → Tokens → Except ScriptError (Taken Script)
  | 0, ts => unexpected ts
  | fuel + 1, ts => do
    let (first, rest) ← pipeline fuel ts
    chainFrom fuel first rest

def chainFrom : Nat → Script → Tokens → Except ScriptError (Taken Script)
  | 0, _, ts => unexpected ts
  | fuel + 1, first, ts => do
    match operator? ts with
    | some "&&" =>
      let (second, rest) ← pipeline fuel (skipBreaks (ts.drop 1))
      chainFrom fuel (.both first second) rest
    | some "||" =>
      let (second, rest) ← pipeline fuel (skipBreaks (ts.drop 1))
      chainFrom fuel (.either first second) rest
    | _ => return (first, ts)

def pipeline : Nat → Tokens → Except ScriptError (Taken Script)
  | 0, ts => unexpected ts
  | fuel + 1, ts => do
    if reserved? ts = some "!" then
      let (s, rest) ← pipeline fuel (ts.drop 1)
      return (.negate s, rest)
    else
      let (first, rest) ← single fuel ts
      if operator? rest = some "|" then
        let (second, rest) ← pipeline fuel (skipBreaks (rest.drop 1))
        return (.pipe first second, rest)
      else return (first, rest)

def single : Nat → Tokens → Except ScriptError (Taken Script)
  | 0, ts => unexpected ts
  | fuel + 1, ts => do
    match ts with
    | ⟨_, .operator "("⟩ :: rest =>
      let (s, rest) ← sequence fuel rest
      match rest with
      | ⟨_, .operator ")"⟩ :: rest =>
        let (rs, rest) ← redirects fuel rest
        return (.isolated s rs, rest)
      | rest => unexpected rest
    | ⟨_, .word w⟩ :: ⟨_, .operator "("⟩ :: ⟨_, .operator ")"⟩ :: rest =>
      match plain? w with
      | some name =>
        let (body, rest) ← single fuel (skipBreaks rest)
        return (.define name body, rest)
      | none => unexpected (ts.drop 1)
    | _ =>
      match reserved? ts with
      | none => simpleWith fuel [] [] [] (lineOf ts) ts
      | some "\x7b" =>
        let (s, rest) ← sequence fuel (ts.drop 1)
        withRedirects fuel s (← expect "\x7d" rest)
      | some "if" =>
        let (s, rest) ← conditional fuel (ts.drop 1)
        withRedirects fuel s rest
      | some "while" =>
        let (s, rest) ← loop fuel false (ts.drop 1)
        withRedirects fuel s rest
      | some "until" =>
        let (s, rest) ← loop fuel true (ts.drop 1)
        withRedirects fuel s rest
      | some "for" =>
        let (s, rest) ← walkThrough fuel (ts.drop 1)
        withRedirects fuel s rest
      | some "case" =>
        match ts.drop 1 with
        | ⟨_, .word w⟩ :: rest =>
          let (s, rest) ← arms fuel w (skipBreaks (← expect "in" (skipBreaks rest)))
          withRedirects fuel s rest
        | rest => unexpected rest
      | some _ => unexpected ts

def withRedirects : Nat → Script → Tokens → Except ScriptError (Taken Script)
  | 0, _, ts => unexpected ts
  | fuel + 1, s, ts => do
    let (rs, rest) ← redirects fuel ts
    return (if rs.isEmpty then s else .grouped s rs, rest)

/-- Reads a condition and its branches, from behind the word that opens them. -/
def conditional : Nat → Tokens → Except ScriptError (Taken Script)
  | 0, ts => unexpected ts
  | fuel + 1, ts => do
    let (condition, rest) ← sequence fuel ts
    let (yes, rest) ← sequence fuel (← expect "then" rest)
    match reserved? rest with
    | some "elif" =>
      let (no, rest) ← conditional fuel (rest.drop 1)
      return (.branch condition yes no, rest)
    | some "else" =>
      let (no, rest) ← sequence fuel (rest.drop 1)
      return (.branch condition yes no, ← expect "fi" rest)
    | _ => return (.branch condition yes .nothing, ← expect "fi" rest)

def loop : Nat → Bool → Tokens → Except ScriptError (Taken Script)
  | 0, _, ts => unexpected ts
  | fuel + 1, whileFailing, ts => do
    let (condition, rest) ← sequence fuel ts
    let (body, rest) ← sequence fuel (← expect "do" rest)
    return (.loop whileFailing condition body, ← expect "done" rest)

/-- Reads a loop over words, from behind the word that opens it. -/
def walkThrough : Nat → Tokens → Except ScriptError (Taken Script)
  | 0, ts => unexpected ts
  | fuel + 1, ts => do
    match ts with
    | ⟨_, .word w⟩ :: rest =>
      match plain? w with
      | none => unexpected ts
      | some name =>
        let rest := skipBreaks rest
        let (words, rest) : Option (List Word) × Tokens :=
          if reserved? rest = some "in" then
            let found := wordsOfLine (rest.drop 1)
            (some found.1, found.2)
          else (none, rest)
        let rest := if operator? rest = some ";" then rest.drop 1 else rest
        let (body, rest) ← sequence fuel (← expect "do" (skipBreaks rest))
        return (.each name words body, ← expect "done" rest)
    | rest => unexpected rest

/-- Reads the arms of a choice up to the word that closes it. -/
def arms : Nat → Word → Tokens → Except ScriptError (Taken Script)
  | 0, _, ts => unexpected ts
  | fuel + 1, w, ts => do
    let ts := skipBreaks ts
    if reserved? ts = some "esac" then return (.nothing, ts.drop 1)
    let (ps, rest) ← patterns fuel ts
    let (yes, rest) ← sequence fuel rest
    let rest := if operator? rest = some ";;" then rest.drop 1 else rest
    let (no, rest) ← arms fuel w rest
    return (.choose w ps yes no, rest)

end

def Script.ofText (text : String) : Except ScriptError Script := do
  let cs := text.toList
  let ts ← tokens (cs.length + 1) 1 cs
  let (s, rest) ← sequence (12 * ts.length + 12) ts
  if rest.isEmpty then return s else unexpected rest

end Shell

end EditHook
