import EditHook.Json.Fault

/-! Blanks, words and texts of JSON. A text is read from behind its opening quote; it may be skipped
instead, and then pairs of surrogates are not checked. -/

namespace EditHook

namespace Json

def isBlank (c : Char) : Bool :=
  c = ' ' || c = '\n' || c = '\t' || c = '\r'

def skipBlank (cs : List Char) : List Char :=
  cs.dropWhile isBlank

/-- Reads the given characters and gives `value` for them. -/
def word (value : α) : List Char → List Char → Except Fault (Parsed α)
  | [], cs => .ok (value, cs)
  | _ :: _, [] => faultAt .endInValue []
  | w :: ws, c :: cs =>
    if c = w then word value ws cs else .error ⟨.expectedWord, byteLength (c :: cs) - 1⟩

def hexDigit? (c : Char) : Option Nat :=
  if '0' ≤ c && c ≤ '9' then some (c.toNat - '0'.toNat)
  else if 'a' ≤ c && c ≤ 'f' then some (c.toNat - 'a'.toNat + 10)
  else if 'A' ≤ c && c ≤ 'F' then some (c.toNat - 'A'.toNat + 10)
  else none

/-- Reads four hexadecimal digits. Whatever they are, four bytes are taken. -/
def fourDigits (cs : List Char) : Except Fault (Parsed Nat) :=
  if byteLength cs < 4 then faultAt .endInText []
  else
    match (cs.take 4).mapM hexDigit? with
    | some digits => .ok (digits.foldl (fun n d => n * 16 + d) 0, cs.drop 4)
    | none => .error ⟨.badEscape, byteLength cs - 4⟩

def isLeading (n : Nat) : Bool :=
  0xD800 ≤ n && n ≤ 0xDBFF

def isTrailing (n : Nat) : Bool :=
  0xDC00 ≤ n && n ≤ 0xDFFF

/-- Reads one character that has to follow a leading surrogate. -/
def joint (c : Char) : List Char → Except Fault (List Char)
  | [] => faultAt .endInText []
  | d :: rest => if d = c then .ok rest else faultPast .openSurrogate (d :: rest)

/-- Reads what follows the letter `u` of an escape: one unit, or two that are a pair. -/
def unitEscape (cs : List Char) : Except Fault (Parsed Char) := do
  let (n, rest) ← fourDigits cs
  if isTrailing n then faultAt .loneSurrogate rest
  else if isLeading n then
    let rest ← joint '\\' rest
    let rest ← joint 'u' rest
    let (m, rest) ← fourDigits rest
    if isTrailing m then
      return (Char.ofNat ((n - 0xD800) * 0x400 + (m - 0xDC00) + 0x10000), rest)
    else faultAt .loneSurrogate rest
  else return (Char.ofNat n, rest)

def shortEscape? (c : Char) : Option Char :=
  if c = '"' || c = '\\' || c = '/' then some c
  else if c = 'b' then some '\x08'
  else if c = 'f' then some '\x0c'
  else if c = 'n' then some '\n'
  else if c = 'r' then some '\r'
  else if c = 't' then some '\t'
  else none

/-- Reads what follows a backslash. -/
def escape : List Char → Except Fault (Parsed Char)
  | [] => faultAt .endInText []
  | c :: rest =>
    if c = 'u' then unitEscape rest
    else
      match shortEscape? c with
      | some d => .ok (d, rest)
      | none => faultPast .badEscape (c :: rest)

/-- Reads a text up to its closing quote, in at most as many steps as there are characters. -/
def textWithin : Nat → List Char → Except Fault (Parsed (List Char))
  | 0, _ => faultAt .endInText []
  | _ + 1, [] => faultAt .endInText []
  | fuel + 1, c :: rest =>
    if c = '"' then .ok ([], rest)
    else if c = '\\' then do
      let (d, rest) ← escape rest
      let (ds, rest) ← textWithin fuel rest
      return (d :: ds, rest)
    else if c.toNat < 0x20 then faultAt .controlCharacter rest
    else do
      let (ds, rest) ← textWithin fuel rest
      return (c :: ds, rest)

def text (cs : List Char) : Except Fault (Parsed String) := do
  let (ds, rest) ← textWithin (cs.length + 1) cs
  return (String.ofList ds, rest)

def skipEscape : List Char → Except Fault (List Char)
  | [] => faultAt .endInText []
  | c :: rest =>
    if c = 'u' then (fourDigits rest).map Prod.snd
    else if (shortEscape? c).isSome then .ok rest
    else faultPast .badEscape (c :: rest)

def skipTextWithin : Nat → List Char → Except Fault (List Char)
  | 0, _ => faultAt .endInText []
  | _ + 1, [] => faultAt .endInText []
  | fuel + 1, c :: rest =>
    if c = '"' then .ok rest
    else if c = '\\' then do skipTextWithin fuel (← skipEscape rest)
    else if c.toNat < 0x20 then faultAt .controlCharacter (c :: rest)
    else skipTextWithin fuel rest

def skipText (cs : List Char) : Except Fault (List Char) :=
  skipTextWithin (cs.length + 1) cs

end Json

end EditHook
