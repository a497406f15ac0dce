import EditHook.Json.Reader

/-! Skipping a value that nobody asked for. Only its form is checked, and it may nest to any depth:
the brackets that are open are kept in a list. -/

namespace EditHook

namespace Json

inductive Bracket where
  | square
  | curly
  deriving DecidableEq, Repr

namespace Bracket

def closer : Bracket → Char
  | square => ']'
  | curly => '\x7d'

def endOfText : Bracket → Problem
  | square => .endInList
  | curly => .endInObject

def expectedEnd : Bracket → Problem
  | square => .expectedListEnd
  | curly => .expectedObjectEnd

end Bracket

/-- Skips the front of a value: a whole value, or the bracket that opens one. -/
def skipFront (cs : List Char) : Except Fault (Parsed (Option Bracket)) :=
  match skipBlank cs with
  | [] => faultPast .endInValue []
  | c :: rest =>
    if c = 'n' then word none ['u', 'l', 'l'] rest
    else if c = 't' then word none ['r', 'u', 'e'] rest
    else if c = 'f' then word none ['a', 'l', 's', 'e'] rest
    else if c = '"' then (skipText rest).map (fun rest => (none, rest))
    else if c = '-' then (skipNumber rest).map (fun rest => (none, rest))
    else if isDigit c then (skipNumber (c :: rest)).map (fun rest => (none, rest))
    else if c = '[' then .ok (some .square, rest)
    else if c = '\x7b' then .ok (some .curly, rest)
    else faultPast .expectedValue (c :: rest)

/-- Skips the brackets that close, up to the place of a further value. Behind a value this takes a
comma; right behind an opening bracket, where `behind` is false, it does not. -/
def settle : List Bracket → Bool → List Char → Except Fault (Parsed (List Bracket))
  | [], _, cs => .ok ([], cs)
  | b :: outer, behind, cs =>
    match skipBlank cs with
    | [] => faultPast b.endOfText []
    | c :: rest =>
      if behind && c = ',' then .ok (b :: outer, rest)
      else if c = b.closer then settle outer true rest
      else if behind then faultPast b.expectedEnd (c :: rest)
      else .ok (b :: outer, c :: rest)

/-- Skips a key and the colon behind it. -/
def skipKey (cs : List Char) : Except Fault (List Char) :=
  match skipBlank cs with
  | [] => faultPast .endInObject []
  | c :: rest =>
    if c = '"' then do colon (← skipText rest) else faultPast .keyNotText (c :: rest)

/-- Skips a value and what closes the open brackets, in at most `fuel` steps. -/
def skim : Nat → List Bracket → List Char → Except Fault (List Char)
  | 0, _, cs => .ok cs
  | fuel + 1, outer, cs => do
    let (opened, rest) ← skipFront cs
    let (still, rest) ←
      match opened with
      | some b => settle (b :: outer) false rest
      | none => settle outer true rest
    match still with
    | [] => return rest
    | .square :: _ => skim fuel still rest
    | .curly :: _ => skim fuel still (← skipKey rest)

def skipValue (cs : List Char) : Except Fault (List Char) :=
  skim (cs.length + 1) [] cs

end Json

end EditHook
