/-! Finite floating point numbers of 64 bits. A magnitude is a count of the least positive one, so
rounding is the same at every size: at most 53 bits are kept, and a half goes to the even
neighbour. -/

namespace EditHook

/-- A sign and a magnitude, in units of `2 ^ -1074`. -/
structure Binary64 where
  negative : Bool
  units : Nat
  deriving DecidableEq, Repr

namespace Binary64

/-- The number of units in one. -/
def one : Nat :=
  Nat.pow 2 1074

/-- The magnitudes from here on are out of range. -/
def bound : Nat :=
  Nat.pow 2 2098

/-- The spacing of the representable magnitudes around `units`. -/
def spacing (units : Nat) : Nat :=
  Nat.pow 2 (units.log2 + 1 - 53)

/-- `n / d` to the nearest integer, a half to the even one. -/
def nearest (n d : Nat) : Nat :=
  let q := n / d
  let r := n % d
  if 2 * r < d then q else if d < 2 * r then q + 1 else q + q % 2

/-- The representable magnitude nearest to `n / d` units. -/
def round (n d : Nat) : Nat :=
  let s := spacing (n / d)
  nearest n (d * s) * s

def roundNat (n : Nat) : Nat :=
  round (n * one) 1

def sum (a b : Nat) : Nat :=
  round (a + b) 1

def product (a b : Nat) : Nat :=
  round (a * b) one

def quotient (a b : Nat) : Nat :=
  round (a * one) b

/-- The greatest power of ten that is taken in one step. -/
def greatestPower : Nat := 308

/-- `a * 10 ^ e`, by way of the representable powers of ten. -/
def scaleUp (a e : Nat) : Option Nat :=
  if a = 0 then some 0
  else if greatestPower < e then none
  else
    let b := product a (roundNat (Nat.pow 10 e))
    if b < bound then some b else none

/-- `a / 10 ^ e`. Steps of the greatest power come first; of a magnitude that is the rounding of a
64 bit integer, three of them leave nothing. -/
def scaleDown (a e : Nat) : Nat :=
  let steps := (e - 1) / greatestPower
  let b := (min steps 3).repeat (fun u => quotient u (roundNat (Nat.pow 10 greatestPower))) a
  quotient b (roundNat (Nat.pow 10 (e - steps * greatestPower)))

/-- The number that a literal `significand * 10 ^ exponent` stands for, unless it is too large. -/
def ofLiteral (negative : Bool) (significand : Nat) (exponent : Int) : Option Binary64 :=
  let a := roundNat significand
  match exponent with
  | .ofNat e => (scaleUp a e).map (Binary64.mk negative)
  | .negSucc e => some ⟨negative, scaleDown a (e + 1)⟩

end Binary64

end EditHook
