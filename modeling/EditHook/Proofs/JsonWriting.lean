import EditHook.Json.Basic
import Mathlib.Data.List.Basic

/-! JSON values as they are written without blanks: every character of a text that has to be escaped
is, and numbers are written in any way there is. -/

namespace EditHook

namespace Json

structure Power where
  upper : Bool
  sign : Option Bool
  first : Fin 10
  more : List (Fin 10)

structure Numeral where
  negative : Bool
  whole : Nat
  /-- The digits behind a point; without any there is no point. -/
  fraction : List (Fin 10)
  power : Option Power

def digits (ds : List (Fin 10)) : List Char :=
  ds.map fun d => d.val.digitChar

namespace Numeral

def powerChars : Option Power → List Char
  | none => []
  | some p =>
    (if p.upper then 'E' else 'e') ::
      ((p.sign.map fun negative => if negative then '-' else '+').toList ++ digits (p.first :: p.more))

def fractionChars : List (Fin 10) → List Char
  | [] => []
  | d :: ds => '.' :: digits (d :: ds)

def unsigned (n : Numeral) : List Char :=
  Nat.toDigits 10 n.whole ++ (fractionChars n.fraction ++ powerChars n.power)

def chars (n : Numeral) : List Char :=
  if n.negative then '-' :: n.unsigned else n.unsigned

def integer? (n : Numeral) : Option Int :=
  if n.fraction.isEmpty && n.power.isNone then
    if n.negative then
      if 0 < n.whole ∧ n.whole ≤ Nat.pow 2 63 then some (-(n.whole : Int)) else none
    else if n.whole < Nat.pow 2 64 then some n.whole else none
  else none

end Numeral

/-- A character of a text in quotes. -/
def escaped (c : Char) : List Char :=
  if c = '"' ∨ c = '\\' then ['\\', c]
  else if c = '\x08' then ['\\', 'b']
  else if c = '\x0c' then ['\\', 'f']
  else if c = '\n' then ['\\', 'n']
  else if c = '\r' then ['\\', 'r']
  else if c = '\t' then ['\\', 't']
  else if c.toNat < 0x20 then
    ['\\', 'u', '0', '0', Nat.digitChar (c.toNat / 16), Nat.digitChar (c.toNat % 16)]
  else [c]

def quotedChars (s : String) : List Char :=
  s.toList.flatMap escaped ++ ['"']

/-- A value with its numbers as they are written. -/
inductive Tree where
  | null
  | boolean (b : Bool)
  | number (n : Numeral)
  | text (s : String)
  | list (items : List Tree)
  | object (members : List (String × Tree))

namespace Tree

mutual

def chars : Tree → List Char
  | null => ['n', 'u', 'l', 'l']
  | boolean true => ['t', 'r', 'u', 'e']
  | boolean false => ['f', 'a', 'l', 's', 'e']
  | number n => n.chars
  | text s => '"' :: quotedChars s
  | list ts => '[' :: (itemChars true ts ++ [']'])
  | object ms => '\x7b' :: (memberChars true ms ++ ['\x7d'])

def itemChars : Bool → List Tree → List Char
  | _, [] => []
  | first, t :: ts => (if first then [] else [',']) ++ (t.chars ++ itemChars false ts)

def memberChars : Bool → List (String × Tree) → List Char
  | _, [] => []
  | first, (key, t) :: ms =>
    (if first then [] else [',']) ++
      ('"' :: (quotedChars key ++ ':' :: (t.chars ++ memberChars false ms)))

end

mutual

def depth : Tree → Nat
  | list ts => itemDepth ts + 1
  | object ms => memberDepth ms + 1
  | _ => 0

def itemDepth : List Tree → Nat
  | [] => 0
  | t :: ts => max t.depth (itemDepth ts)

def memberDepth : List (String × Tree) → Nat
  | [] => 0
  | (_, t) :: ms => max t.depth (memberDepth ms)

end

mutual

/-- The value, if all its numbers are integers of 64 bits. -/
def json? : Tree → Option Json
  | null => some .null
  | boolean b => some (.scalar (.boolean b))
  | number n => n.integer?.map fun i => .scalar (.integer i)
  | text s => some (.scalar (.text s))
  | list ts => (itemJson? ts).map .list
  | object ms => (memberJson? ms).map .object

def itemJson? : List Tree → Option (List Json)
  | [] => some []
  | t :: ts => t.json?.bind fun j => (itemJson? ts).map (j :: ·)

def memberJson? : List (String × Tree) → Option (List (String × Json))
  | [] => some []
  | (key, t) :: ms => t.json?.bind fun j => (memberJson? ms).map ((key, j) :: ·)

end

end Tree

end Json

end EditHook
