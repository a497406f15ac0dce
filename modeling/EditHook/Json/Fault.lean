import EditHook.Json.Basic
import EditHook.Number.Shortest
import EditHook.Text.Quoted
import EditHook.Text.Utf8

/-! What can be wrong with a JSON text, and where. A fault is found while some bytes are still to be
read, and their number is its place. -/

namespace EditHook

/-- What stands where something else was expected. -/
inductive Found where
  | scalar (s : Scalar)
  | list
  | object
  deriving DecidableEq, Repr

def Found.describe : Found → String
  | scalar .null => "null"
  | scalar (.boolean b) => "boolean `" ++ toString b ++ "`"
  | scalar (.integer n) => "integer `" ++ toString n ++ "`"
  | scalar (.real x) => "floating point `" ++ x.text ++ "`"
  | scalar (.text s) => "string " ++ quoted s
  | list => "sequence"
  | object => "map"

inductive Problem where
  | endInList
  | endInObject
  | endInText
  | endInValue
  | expectedColon
  | expectedListEnd
  | expectedObjectEnd
  | expectedWord
  | expectedValue
  | badEscape
  | badNumber
  | outOfRange
  | controlCharacter
  | keyNotText
  | loneSurrogate
  | openSurrogate
  | trailingComma
  | trailingCharacters
  | tooDeep
  | wrongType (found : Found) (expected : String)
  | wrongLength (length : Nat) (expected : String)
  | repeated (key : String)
  deriving DecidableEq, Repr

def Problem.message : Problem → String
  | endInList => "EOF while parsing a list"
  | endInObject => "EOF while parsing an object"
  | endInText => "EOF while parsing a string"
  | endInValue => "EOF while parsing a value"
  | expectedColon => "expected `:`"
  | expectedListEnd => "expected `,` or `]`"
  | expectedObjectEnd => "expected `,` or `\x7d`"
  | expectedWord => "expected ident"
  | expectedValue => "expected value"
  | badEscape => "invalid escape"
  | badNumber => "invalid number"
  | outOfRange => "number out of range"
  | controlCharacter => "control character (\\u0000-\\u001F) found while parsing a string"
  | keyNotText => "key must be a string"
  | loneSurrogate => "lone leading surrogate in hex escape"
  | openSurrogate => "unexpected end of hex escape"
  | trailingComma => "trailing comma"
  | trailingCharacters => "trailing characters"
  | tooDeep => "recursion limit exceeded"
  | wrongType found expected => "invalid type: " ++ found.describe ++ ", expected " ++ expected
  | wrongLength length expected =>
    "invalid length " ++ toString length ++ ", expected " ++ expected
  | repeated key => "duplicate field `" ++ key ++ "`"

structure Fault where
  problem : Problem
  /-- The number of bytes from the place of the fault to the end of the text. -/
  left : Nat
  deriving DecidableEq, Repr

/-- A place in a text. Lines count from one and columns from zero. -/
structure Place where
  line : Nat
  column : Nat
  deriving DecidableEq, Repr

def Place.after (bytes : List UInt8) : Place :=
  ⟨1 + bytes.count 0x0A, (bytes.reverse.takeWhile (· != 0x0A)).length⟩

def Fault.place (text : String) (f : Fault) : Place :=
  let bytes := utf8 text
  .after (bytes.take (bytes.length - f.left))

def Fault.message (text : String) (f : Fault) : String :=
  f.problem.message ++ " at line " ++ toString (f.place text).line ++ " column " ++
    toString (f.place text).column

/-- A result and the characters that are still to be read. -/
abbrev Parsed (α : Type) := α × List Char

/-- A fault in front of some characters. -/
def faultAt (p : Problem) (rest : List Char) : Except Fault α :=
  .error ⟨p, byteLength rest⟩

/-- A fault behind the first byte of some characters, if there is one. -/
def faultPast (p : Problem) (rest : List Char) : Except Fault α :=
  .error ⟨p, byteLength rest - 1⟩

end EditHook
