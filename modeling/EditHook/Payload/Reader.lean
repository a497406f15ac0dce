import EditHook.Json.Skim
import EditHook.Payload.Basic

/-! Payloads as JSON texts. A payload is an object, of which only three members are looked at, or a
list of the values of these members in a fixed order. -/

namespace EditHook

namespace Payload

def expected : String :=
  "struct HookInput"

open Json in
def optionalText (cs : List Char) : Except Fault (Parsed (Option String)) :=
  match skipBlank cs with
  | [] => faultPast .endInValue []
  | c :: rest =>
    if c = 'n' then word none ['u', 'l', 'l'] rest
    else if c = '"' then (text rest).map (fun r => (some r.1, r.2))
    else wrongType "a string" c rest

/-- Reads the tool's input, for which the payload itself is one bracket that is open. -/
def toolInput (cs : List Char) : Except Fault (Parsed Json) :=
  Json.value (Json.greatestNesting - 1) cs

/-- The members that have been read, of those that are looked at. -/
structure Draft where
  event : Option (Option String)
  tool : Option (Option String)
  input : Option Json

namespace Draft

def empty : Draft :=
  ⟨none, none, none⟩

/-- A member that is not there is `null`. -/
def payload (d : Draft) : Payload :=
  ⟨d.event.getD none, d.tool.getD none, d.input.getD .null⟩

end Draft

/-- The fault of a key that comes a second time. Its place is behind the blanks that follow, and
behind the bracket that ends the object if that comes next. -/
def repeated (key : String) (cs : List Char) : Except Fault α :=
  match Json.skipBlank cs with
  | '\x7d' :: rest => faultAt (.repeated key) rest
  | rest => faultAt (.repeated key) rest

open Json in
def member (d : Draft) (key : String) (cs : List Char) : Except Fault (Parsed Draft) :=
  if key = "hook_event_name" then
    if d.event.isSome then repeated key cs
    else do
      let (v, rest) ← optionalText (← colon cs)
      return ({ d with event := some v }, rest)
  else if key = "tool_name" then
    if d.tool.isSome then repeated key cs
    else do
      let (v, rest) ← optionalText (← colon cs)
      return ({ d with tool := some v }, rest)
  else if key = "tool_input" then
    if d.input.isSome then repeated key cs
    else do
      let (v, rest) ← toolInput (← colon cs)
      return ({ d with input := some v }, rest)
  else do
    let rest ← skipValue (← colon cs)
    return (d, rest)

open Json in
/-- Reads the members of a payload, in at most `fuel` steps. -/
def fields : Nat → Bool → Draft → List Char → Except Fault (Parsed Payload)
  | 0, _, _, _ => faultAt .endInObject []
  | fuel + 1, first, d, cs => do
    let (more, rest) ← nextKey first cs
    if more then
      let (key, rest) ← text rest
      let (d, rest) ← member d key rest
      fields fuel false d rest
    else return (d.payload, rest)

open Json in
/-- Takes the bracket that ends a list of three. -/
def endOfList (cs : List Char) : Except Fault (List Char) :=
  match skipBlank cs with
  | [] => faultPast .endInList []
  | c :: rest =>
    if c = ']' then .ok rest
    else if c = ',' then
      match skipBlank rest with
      | ']' :: more => faultPast .trailingComma (']' :: more)
      | more => faultPast .trailingCharacters more
    else faultPast .trailingCharacters (c :: rest)

/-- The fault of a list that ends before it has the two names. -/
def tooShort (length : Nat) (rest : List Char) : Except Fault α :=
  faultAt (.wrongLength length (expected ++ " with 3 elements")) rest

open Json in
/-- Reads the list form behind its opening bracket. The input may be missing. -/
def listed (cs : List Char) : Except Fault (Parsed Payload) := do
  let (more, rest) ← nextItem true cs
  if !more then tooShort 0 rest
  else
    let (event, rest) ← optionalText rest
    let (more, rest) ← nextItem false rest
    if !more then tooShort 1 rest
    else
      let (tool, rest) ← optionalText rest
      let (more, rest) ← nextItem false rest
      if !more then return (⟨event, tool, .null⟩, rest)
      else
        let (input, rest) ← toolInput rest
        return (⟨event, tool, input⟩, ← endOfList rest)

open Json in
/-- Reads a payload in either form. -/
def parse (cs : List Char) : Except Fault (Parsed Payload) :=
  match skipBlank cs with
  | [] => faultPast .endInValue []
  | c :: rest =>
    if c = '\x7b' then fields (rest.length + 1) true .empty rest
    else if c = '[' then listed rest
    else wrongType expected c rest

def ofText (text : String) : Except Fault Payload := do
  let (p, rest) ← parse text.toList
  match Json.skipBlank rest with
  | [] => return p
  | rest => faultPast .trailingCharacters rest

end Payload

inductive Stdin where
  | bytes (bs : List UInt8)
  | fails (message : String)
  deriving DecidableEq, Repr

inductive PayloadError where
  | unreadable (message : String)
  | malformed (text : String) (fault : Fault)
  deriving DecidableEq, Repr

def PayloadError.message : PayloadError → String
  | unreadable message => "failed to read stdin: " ++ message
  | malformed text fault => "invalid hook payload: " ++ fault.message text

def Payload.ofStdin : Stdin → Except PayloadError Payload
  | .fails message => .error (.unreadable message)
  | .bytes bs =>
    match textOfBytes? bs with
    | none => .error (.unreadable notTextMessage)
    | some text => (ofText text).mapError (.malformed text)

end EditHook
