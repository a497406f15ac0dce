import EditHook.Json.Number

/-! Reading JSON values. The number of brackets that may be open at once bounds the recursion, so a
text that nests too deeply is a fault like any other. -/

namespace EditHook

namespace Json

/-- How many brackets may be open at once in a text. -/
def greatestNesting : Nat := 127

/-- Whether a list goes on, behind its opening bracket or behind an item. A bracket that ends the
list is taken, and so is the comma in front of a further item. -/
def nextItem (first : Bool) (cs : List Char) : Except Fault (Parsed Bool) :=
  match skipBlank cs with
  | [] => faultPast .endInList []
  | c :: rest =>
    if c = ']' then .ok (false, rest)
    else if first then .ok (true, c :: rest)
    else if c = ',' then
      match skipBlank rest with
      | [] => faultPast .endInValue []
      | d :: more =>
        if d = ']' then faultPast .trailingComma (d :: more) else .ok (true, d :: more)
    else faultPast .expectedListEnd (c :: rest)

/-- Whether an object goes on, behind its opening bracket or behind a member. A bracket that ends the
object is taken, and so are the comma in front of a further key and the quote that opens it. -/
def nextKey (first : Bool) (cs : List Char) : Except Fault (Parsed Bool) :=
  match skipBlank cs with
  | [] => faultPast .endInObject []
  | c :: rest =>
    if c = '\x7d' then .ok (false, rest)
    else if first then
      if c = '"' then .ok (true, rest) else faultPast .keyNotText (c :: rest)
    else if c = ',' then
      match skipBlank rest with
      | [] => faultPast .endInValue []
      | d :: more =>
        if d = '"' then .ok (true, more)
        else if d = '\x7d' then faultPast .trailingComma (d :: more)
        else faultPast .keyNotText (d :: more)
    else faultPast .expectedObjectEnd (c :: rest)

def colon (cs : List Char) : Except Fault (List Char) :=
  match skipBlank cs with
  | [] => faultPast .endInObject []
  | c :: rest => if c = ':' then .ok rest else faultPast .expectedColon (c :: rest)

/-- Reads a value that holds no others. Nothing else starts with `c`. -/
def scalarAt? (c : Char) (rest : List Char) : Option (Except Fault (Parsed Scalar)) :=
  if c = 'n' then some (word .null ['u', 'l', 'l'] rest)
  else if c = 't' then some (word (.boolean true) ['r', 'u', 'e'] rest)
  else if c = 'f' then some (word (.boolean false) ['a', 'l', 's', 'e'] rest)
  else if c = '"' then some ((text rest).map (fun r => (.text r.1, r.2)))
  else if c = '-' then some (number true rest)
  else if isDigit c then some (number false (c :: rest))
  else none

/-- Reads the items of a list, in at most `fuel` steps. -/
def items (item : List Char → Except Fault (Parsed Json)) :
    Nat → Bool → List Char → Except Fault (Parsed (List Json))
  | 0, _, _ => faultAt .endInList []
  | fuel + 1, first, cs => do
    let (more, rest) ← nextItem first cs
    if more then
      let (x, rest) ← item rest
      let (xs, rest) ← items item fuel false rest
      return (x :: xs, rest)
    else return ([], rest)

/-- Reads the members of an object, in at most `fuel` steps. -/
def members (item : List Char → Except Fault (Parsed Json)) :
    Nat → Bool → List Char → Except Fault (Parsed (List (String × Json)))
  | 0, _, _ => faultAt .endInObject []
  | fuel + 1, first, cs => do
    let (more, rest) ← nextKey first cs
    if more then
      let (key, rest) ← text rest
      let (x, rest) ← item (← colon rest)
      let (xs, rest) ← members item fuel false rest
      return ((key, x) :: xs, rest)
    else return ([], rest)

/-- Reads a value in which at most so many brackets are open at once. -/
def value : Nat → List Char → Except Fault (Parsed Json)
  | levels, cs =>
    match skipBlank cs with
    | [] => faultPast .endInValue []
    | c :: rest =>
      match scalarAt? c rest, levels with
      | some r, _ => r.map (fun r => (.scalar r.1, r.2))
      | none, 0 =>
        faultPast (if c = '[' || c = '\x7b' then .tooDeep else .expectedValue) (c :: rest)
      | none, levels + 1 =>
        if c = '[' then
          (items (value levels) (rest.length + 1) true rest).map (fun r => (.list r.1, r.2))
        else if c = '\x7b' then
          (members (value levels) (rest.length + 1) true rest).map (fun r => (.object r.1, r.2))
        else faultPast .expectedValue (c :: rest)

/-- The fault of a value that is not of the expected type, or of no value at all. -/
def wrongType (expected : String) (c : Char) (rest : List Char) : Except Fault α := do
  match scalarAt? c rest with
  | some r =>
    let (s, rest) ← r
    faultAt (.wrongType (.scalar s) expected) rest
  | none =>
    if c = '[' then faultAt (.wrongType .list expected) (c :: rest)
    else if c = '\x7b' then faultAt (.wrongType .object expected) (c :: rest)
    else faultPast .expectedValue (c :: rest)

end Json

end EditHook
