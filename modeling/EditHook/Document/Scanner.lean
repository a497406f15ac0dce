import EditHook.Document.Lines
import EditHook.Document.Token
import EditHook.Text.Utf8

/-! From characters to tokens, one character at a time. A token that ends only where another
character shows up hands that character back to the ground mode, so nothing is read twice and a
scan of two texts in a row is two scans. Comments leave no token but the space they stand for. -/

namespace EditHook

namespace Scanner

inductive Mode where
  | ground
  | word (cs : List Char)
  | hashes (count : Nat)
  | keyword (cs : List Char)
  /-- After `/`, inside a continued line or not. -/
  | slash (continued : Bool)
  | lineComment (continued : Bool)
  | blockComment (continued : Bool) (depth : Nat) (last : Char)
  /-- After a backslash, up to the newline that it hides. -/
  | continued
  /-- After a hidden carriage return, which may be followed by its line feed. -/
  | hiddenReturn
  /-- After the first quote. -/
  | quoteOpen
  /-- After two quotes: empty text or the start of several lines. -/
  | quotePair
  /-- Inside quotes, over several lines or not; what was written comes last first. -/
  | quoted (several : Bool) (ws : List Written)
  /-- After one or two quotes inside text of several lines. -/
  | innerQuotes (count : Nat) (ws : List Written)
  | backslash (several : Bool) (ws : List Written)
  | gap (several : Bool) (ws : List Written)
  | codeStart (several : Bool) (ws : List Written)
  | code (several : Bool) (ws : List Written) (digits value : Nat)
  /-- Raw text with this many hashes; after a quote, the number of hashes that followed it. -/
  | raw (hashes : Nat) (cs : List Char) (closing : Option Nat)
  /-- Raw text of several lines, with the number of quotes just read and of hashes after them. -/
  | rawLines (hashes : Nat) (cs : List Char) (quotes closing : Nat)
  deriving DecidableEq, Repr

structure State where
  mode : Mode
  /-- The byte offset of the next character. -/
  here : Nat
  /-- Where the token being read started. -/
  start : Nat
  /-- The tokens so far, last first. -/
  tokens : List PlacedToken
  deriving DecidableEq, Repr

def State.enter (s : State) (m : Mode) : State := { s with mode := m }

def State.emit (s : State) (t : Token) : State :=
  { s with mode := .ground, tokens := ⟨t, s.start⟩ :: s.tokens }

def State.emit? (s : State) (t : Option Token) : Option State :=
  t.map s.emit

def State.emitChars? (s : State) (cs : Option (List Char)) : Option State :=
  cs.map (fun cs => s.emit (.text (String.ofList cs)))

def groundStep (s : State) (c : Char) : Option State :=
  let s := { s with start := s.here }
  match c with
  | '"' => some (s.enter .quoteOpen)
  | '#' => some (s.enter (.hashes 1))
  | '/' => some (s.enter (.slash false))
  | '\\' => some (s.enter .continued)
  | '{' => some (s.emit .blockStart)
  | '}' => some (s.emit .blockEnd)
  | '(' => some (s.emit .typeStart)
  | ')' => some (s.emit .typeEnd)
  | '=' => some (s.emit .equals)
  | ';' => some (s.emit .semicolon)
  | c =>
    if Character.isNewline c then some (s.emit .newline)
    else if Character.isSpace c then some (s.emit .space)
    else if Character.isWord c then some (s.enter (.word [c]))
    else none

/-- A continued line ends in a newline, which it hides together with what precedes it. -/
def hideNewline (s : State) (c : Char) : State :=
  let s := s.emit .space
  if c = '\r' then s.enter .hiddenReturn else s

def slashStep (s : State) (continued : Bool) (c : Char) : Option State :=
  match c with
  | '/' => some (s.enter (.lineComment continued))
  | '*' => some (s.enter (.blockComment continued 0 ' '))
  | '-' => if continued then none else some (s.emit .discard)
  | _ => none

def blockCommentStep (s : State) (continued : Bool) (depth : Nat) (last c : Char) : State :=
  if last = '*' && c = '/' then
    match depth with
    | 0 => if continued then s.enter .continued else s.emit .space
    | d + 1 => s.enter (.blockComment continued d ' ')
  else if last = '/' && c = '*' then s.enter (.blockComment continued (depth + 1) ' ')
  else s.enter (.blockComment continued depth c)

def quotedStep (s : State) (several : Bool) (ws : List Written) (c : Char) : Option State :=
  if c = '"' then
    if several then some (s.enter (.innerQuotes 1 ws))
    else some (s.emit (.text (String.ofList (Written.chars ws.reverse))))
  else if c = '\\' then some (s.enter (.backslash several ws))
  else if Character.isForbidden c || (Character.isNewline c && !several) then none
  else some (s.enter (.quoted several (.plain c :: ws)))

def innerQuotesStep (s : State) (count : Nat) (ws : List Written) (c : Char) : Option State :=
  if c = '"' then
    if count = 2 then s.emitChars? (Written.block? ws.reverse)
    else some (s.enter (.innerQuotes (count + 1) ws))
  else quotedStep s true (List.replicate count (.plain '"') ++ ws) c

/-- The character that a backslash and this one stand for. -/
def escape? : Char → Option Char
  | '"' => some '"'
  | '\\' => some '\\'
  | 'b' => some '\x08'
  | 'f' => some '\x0c'
  | 'n' => some '\n'
  | 'r' => some '\r'
  | 't' => some '\t'
  | 's' => some ' '
  | _ => none

def backslashStep (s : State) (several : Bool) (ws : List Written) (c : Char) : Option State :=
  if c = 'u' then some (s.enter (.codeStart several ws))
  else if Character.isSpace c || Character.isNewline c then
    some (s.enter (.gap several (.gap :: ws)))
  else (escape? c).map (fun d => s.enter (.quoted several (.escaped d :: ws)))

def gapStep (s : State) (several : Bool) (ws : List Written) (c : Char) : Option State :=
  if Character.isSpace c || Character.isNewline c then some (s.enter (.gap several ws))
  else quotedStep s several ws c

/-- One to six hexadecimal digits name a character. -/
def codeStep (s : State) (several : Bool) (ws : List Written) (digits value : Nat) (c : Char) :
    Option State :=
  if c = '}' then
    if digits = 0 then none
    else (Character.ofCode? value).map (fun d => s.enter (.quoted several (.escaped d :: ws)))
  else if digits = 6 then none
  else (Character.hexValue? c).map
    (fun v => s.enter (.code several ws (digits + 1) (value * 16 + v)))

/-- Raw text must not be a single quote, which three quotes in a row would write. -/
def State.emitRaw? (s : State) (cs : Option (List Char)) : Option State :=
  s.emitChars? (cs.filter (· != ['"']))

def rawStep (s : State) (hashes : Nat) (cs : List Char) (closing : Option Nat) (c : Char) :
    Option State :=
  let seen := match closing with
    | none => cs
    | some k => List.replicate k '#' ++ '"' :: cs
  if c = '"' then some (s.enter (.raw hashes seen (some 0)))
  else if Character.isForbidden c then none
  else if Character.isNewline c then
    if cs = ['"'] && closing == some 0 then some (s.enter (.rawLines hashes [c] 0 0)) else none
  else
    match closing with
    | some k =>
      if c = '#' then
        if k + 1 = hashes then s.emitRaw? (some cs.reverse)
        else some (s.enter (.raw hashes cs (some (k + 1))))
      else some (s.enter (.raw hashes (c :: seen) none))
    | none => some (s.enter (.raw hashes (c :: cs) none))

def rawLinesStep (s : State) (hashes : Nat) (cs : List Char) (quotes closing : Nat) (c : Char) :
    Option State :=
  if c = '"' then
    some (s.enter (.rawLines hashes (c :: cs) (if closing = 0 then quotes + 1 else 1) 0))
  else if c = '#' && 3 ≤ quotes then
    if closing + 1 = hashes then
      s.emitRaw? (Written.block? ((cs.drop (closing + 3)).reverse.map .plain))
    else some (s.enter (.rawLines hashes (c :: cs) quotes (closing + 1)))
  else if Character.isForbidden c then none
  else some (s.enter (.rawLines hashes (c :: cs) 0 0))

def modeStep (s : State) (c : Char) : Option State :=
  match s.mode with
  | .ground => groundStep s c
  | .word cs =>
    if Character.isWord c then some (s.enter (.word (c :: cs)))
    else (s.emit? (Word.token? cs.reverse)).bind (groundStep · c)
  | .hashes n =>
    if c = '#' then some (s.enter (.hashes (n + 1)))
    else if c = '"' then some (s.enter (.raw n [] none))
    else if n = 1 && Character.isWord c then some (s.enter (.keyword [c]))
    else none
  | .keyword cs =>
    if Character.isWord c then some (s.enter (.keyword (c :: cs)))
    else (s.emit? (Word.keyword? cs.reverse)).bind (groundStep · c)
  | .slash continued => slashStep s continued c
  | .lineComment continued =>
    if !Character.isNewline c then some s
    else if continued then some (hideNewline s c)
    else some ({ s with start := s.here }.emit .newline)
  | .blockComment continued depth last => some (blockCommentStep s continued depth last c)
  | .continued =>
    if Character.isNewline c then some (hideNewline s c)
    else if Character.isSpace c then some s
    else if c = '/' then some (s.enter (.slash true))
    else none
  | .hiddenReturn => if c = '\n' then some (s.enter .ground) else groundStep (s.enter .ground) c
  | .quoteOpen => if c = '"' then some (s.enter .quotePair) else quotedStep s false [] c
  | .quotePair =>
    if c = '"' then some (s.enter (.quoted true [])) else groundStep (s.emit (.text "")) c
  | .quoted several ws => quotedStep s several ws c
  | .innerQuotes count ws => innerQuotesStep s count ws c
  | .backslash several ws => backslashStep s several ws c
  | .gap several ws => gapStep s several ws c
  | .codeStart several ws => if c = '{' then some (s.enter (.code several ws 0 0)) else none
  | .code several ws digits value => codeStep s several ws digits value c
  | .raw hashes cs closing => rawStep s hashes cs closing c
  | .rawLines hashes cs quotes closing => rawLinesStep s hashes cs quotes closing c

def step (s : State) (c : Char) : Option State :=
  (modeStep s c).map (fun t => { t with here := s.here + c.utf8Size })

/-- The tokens, once the end of the text is met. A continued line may end there. -/
def finish (s : State) : Option (List PlacedToken) :=
  let ended := match s.mode with
    | .ground => some s
    | .word cs => s.emit? (Word.token? cs.reverse)
    | .keyword cs => s.emit? (Word.keyword? cs.reverse)
    | .lineComment _ => some s
    | .continued => some s
    | .hiddenReturn => some s
    | .quotePair => some (s.emit (.text ""))
    | _ => none
  ended.map (fun s => s.tokens.reverse)

def run (s : State) (cs : List Char) : Option State :=
  cs.foldlM step s

def start (offset : Nat) : State := ⟨.ground, offset, offset, []⟩

/-- The tokens of a text; a byte order mark at its start is passed over. -/
def tokens? (text : String) : Option (List PlacedToken) :=
  match text.toList with
  | '\uFEFF' :: cs => (run (start 3) cs).bind finish
  | cs => (run (start 0) cs).bind finish

end Scanner

end EditHook
