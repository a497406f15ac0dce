import EditHook.Document.Character

/-! Tokens of a rule document, and the reading of words: a word is a number, text, or one of the
reserved words that must not stand without `#`. -/

namespace EditHook

inductive Token where
  | space
  | newline
  | semicolon
  | blockStart
  | blockEnd
  | typeStart
  | typeEnd
  | equals
  /-- The mark of a slash and a dash, which discards what follows it. -/
  | discard
  | text (s : String)
  | scalar (written : String)
  deriving DecidableEq, Repr

structure PlacedToken where
  token : Token
  /-- The byte offset of its first character. -/
  start : Nat
  deriving DecidableEq, Repr

namespace Word

def isDigitOf (base : Nat) (c : Char) : Bool :=
  match Character.hexValue? c with
  | some v => v < base
  | none => false

/-- Digits with underscores between or after them, starting with a digit. -/
def isDigits (base : Nat) : List Char → Bool
  | [] => false
  | c :: cs => isDigitOf base c && cs.all (fun d => d == '_' || isDigitOf base d)

def digitsValue (base : Nat) (cs : List Char) : Nat :=
  cs.foldl (fun n c => match Character.hexValue? c with
    | some v => n * base + v
    | none => n) 0

/-- Integers lie below `2 ^ 127`. -/
def isInteger (base : Nat) (cs : List Char) : Bool :=
  isDigits base cs && digitsValue base cs < Nat.pow 2 127

def dropSign : List Char → List Char
  | '+' :: cs => cs
  | '-' :: cs => cs
  | cs => cs

/-- Splits before the first character of a kind. -/
def cut (stop : Char → Bool) (cs : List Char) : List Char × List Char :=
  (cs.takeWhile (fun c => !stop c), cs.dropWhile (fun c => !stop c))

/-- A decimal number without its sign: digits, perhaps a fraction, perhaps an exponent. -/
def isDecimal (cs : List Char) : Bool :=
  let (mantissa, exponent) := cut (fun c => c == 'e' || c == 'E') cs
  let (whole, fraction) := cut (· == '.') mantissa
  match exponent, fraction with
  | [], [] => isInteger 10 whole
  | _, _ =>
    isDigits 10 whole && (fraction.isEmpty || isDigits 10 (fraction.drop 1)) &&
      (exponent.isEmpty || isDigits 10 (dropSign (exponent.drop 1)))

def isNumber (cs : List Char) : Bool :=
  match dropSign cs with
  | '0' :: 'x' :: ds => isInteger 16 ds
  | '0' :: 'o' :: ds => isInteger 8 ds
  | '0' :: 'b' :: ds => isInteger 2 ds
  | ds => isDecimal ds

/-- Whether a word has to be a number: a digit follows its sign and its point. -/
def looksNumeric (cs : List Char) : Bool :=
  match dropSign cs with
  | '.' :: c :: _ => c.isDigit
  | c :: _ => c.isDigit
  | [] => false

def reserved : List String := ["true", "false", "null", "inf", "nan"]

def keywords : List String := ["true", "false", "null", "inf", "-inf", "nan"]

def token? (cs : List Char) : Option Token :=
  let s := String.ofList cs
  if looksNumeric cs then if isNumber cs then some (.scalar s) else none
  else if reserved.contains s then none
  else some (.text s)

/-- The token of a word behind `#`. -/
def keyword? (cs : List Char) : Option Token :=
  let s := String.ofList cs
  if keywords.contains s then some (.scalar ("#" ++ s)) else none

end Word

end EditHook
