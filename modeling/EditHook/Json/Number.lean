import EditHook.Json.Word

/-! JSON numbers. Integers of 64 bits are kept as they are, and all others become floating point
numbers. The digits of a significand count as long as it fits 64 bits; those behind them only count
as powers of ten, or, behind the point, not at all. -/

namespace EditHook

namespace Json

def isDigit (c : Char) : Bool :=
  '0' ≤ c && c ≤ '9'

def digitValue (c : Char) : Nat :=
  c.toNat - '0'.toNat

/-- The digits in front and what follows them. -/
def spanDigits (cs : List Char) : List Char × List Char :=
  (cs.takeWhile isDigit, cs.dropWhile isDigit)

def greatestSignificand : Nat := Nat.pow 2 64 - 1

/-- The least exponent that counts as infinite. -/
def exponentBound : Nat := Nat.pow 2 31

/-- Appends digits to a significand while it fits. Gives the significand, the number of digits that
were appended and what follows them. -/
def extend (n : Nat) : List Char → Nat × Nat × List Char
  | [] => (n, 0, [])
  | c :: rest =>
    if isDigit c && n * 10 + digitValue c ≤ greatestSignificand then
      let more := extend (n * 10 + digitValue c) rest
      (more.1, more.2.1 + 1, more.2.2)
    else (n, 0, c :: rest)

structure Literal where
  negative : Bool
  significand : Nat
  exponent : Int
  /-- Written with a point or an exponent, or with too many digits. -/
  inexact : Bool
  deriving DecidableEq, Repr

/-- The value of a literal. Zero has a sign only as a floating point number. -/
def Literal.scalar? (l : Literal) : Option Scalar :=
  if l.inexact then (Binary64.ofLiteral l.negative l.significand l.exponent).map .real
  else if !l.negative then some (.integer l.significand)
  else if l.significand = 0 || Nat.pow 2 63 < l.significand then
    (Binary64.ofLiteral true l.significand 0).map .real
  else some (.integer (-(l.significand : Int)))

/-- Reads the digits of an integer. A zero stands alone. -/
def whole (negative : Bool) : List Char → Except Fault (Parsed Literal)
  | [] => faultAt .endInValue []
  | c :: rest =>
    if c = '0' then
      if (rest.head?.map isDigit).getD false then faultPast .badNumber rest
      else .ok (⟨negative, 0, 0, false⟩, rest)
    else if isDigit c then
      let (n, _, rest) := extend (digitValue c) rest
      let (ignored, rest) := spanDigits rest
      .ok (⟨negative, n, ignored.length, !ignored.isEmpty⟩, rest)
    else faultPast .badNumber (c :: rest)

/-- Reads the digits behind a point. -/
def fraction (l : Literal) (cs : List Char) : Except Fault (Parsed Literal) :=
  let (n, count, rest) := extend l.significand cs
  let (ignored, rest) := spanDigits rest
  if count = 0 && ignored.isEmpty then
    faultPast (if rest.isEmpty then .endInValue else .badNumber) rest
  else .ok (⟨l.negative, n, l.exponent - count, true⟩, rest)

/-- The value of the digits of an exponent, or where it passes the bound. -/
def exponentValue (n : Nat) : List Char → Nat ⊕ List Char
  | [] => .inl n
  | c :: rest =>
    if n * 10 + digitValue c < exponentBound then exponentValue (n * 10 + digitValue c) rest
    else .inr rest

def sign : List Char → Bool × List Char
  | [] => (false, [])
  | c :: rest =>
    if c = '+' then (false, rest) else if c = '-' then (true, rest) else (false, c :: rest)

/-- Reads an exponent behind its letter. Beyond the bound a number is zero, or out of range as soon
as the bound is passed. -/
def exponent (l : Literal) (cs : List Char) : Except Fault (Parsed Literal) :=
  let (down, cs) := sign cs
  match cs with
  | [] => faultAt .endInValue []
  | c :: _ =>
    if isDigit c then
      let (digits, rest) := spanDigits cs
      match exponentValue 0 digits with
      | .inl e => .ok ({ l with exponent := if down then l.exponent - e else l.exponent + e,
                                inexact := true }, rest)
      | .inr more =>
        if l.significand ≠ 0 && !down then faultAt .outOfRange (more ++ rest)
        else .ok (⟨l.negative, 0, 0, true⟩, rest)
    else faultPast .badNumber cs

def exponentIfAny (l : Literal) : List Char → Except Fault (Parsed Literal)
  | [] => .ok (l, [])
  | c :: rest => if c = 'e' || c = 'E' then exponent l rest else .ok (l, c :: rest)

def literal (negative : Bool) (cs : List Char) : Except Fault (Parsed Literal) := do
  let (l, rest) ← whole negative cs
  match rest with
  | '.' :: more =>
    let (l, rest) ← fraction l more
    exponentIfAny l rest
  | _ => exponentIfAny l rest

def number (negative : Bool) (cs : List Char) : Except Fault (Parsed Scalar) := do
  let (l, rest) ← literal negative cs
  match l.scalar? with
  | some s => return (s, rest)
  | none => faultAt .outOfRange rest

/-- Skips digits, of which there has to be one. -/
def skipDigits : List Char → Except Fault (List Char)
  | [] => faultAt .badNumber []
  | c :: rest =>
    if isDigit c then .ok (rest.dropWhile isDigit) else faultPast .badNumber (c :: rest)

def skipExponent : List Char → Except Fault (List Char)
  | [] => .ok []
  | c :: rest =>
    if c = 'e' || c = 'E' then skipDigits (sign rest).2 else .ok (c :: rest)

/-- Skips a number behind its sign, whatever its size. -/
def skipNumber : List Char → Except Fault (List Char)
  | [] => faultAt .badNumber []
  | c :: rest => do
    if !isDigit c then faultPast .badNumber (c :: rest)
    else if c = '0' && (rest.head?.map isDigit).getD false then faultPast .badNumber rest
    else
      match rest.dropWhile isDigit with
      | '.' :: more => do skipExponent (← skipDigits more)
      | rest => skipExponent rest

end Json

end EditHook
