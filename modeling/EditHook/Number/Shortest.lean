import EditHook.Number.Binary64

/-! The shortest decimals that read back as a given number. Of the decimals with some number of
digits, the two around the number are tried; the first number of digits with a hit wins, and of two
hits the nearer one. -/

namespace EditHook

namespace Binary64

/-- A decimal `0.d₁d₂d₃… * 10 ^ (point)`, as digits without zeros at the end. -/
structure Decimal where
  digits : List Char
  point : Int
  deriving DecidableEq, Repr

/-- Four times the least and the greatest magnitude that round to `units`. The spacing below a power
of two is half the spacing above it. -/
def interval (units : Nat) : Nat × Nat :=
  let s := spacing units
  let below := if units = Nat.pow 2 units.log2 && 1 < s then s else 2 * s
  (4 * units - below, 4 * units + 2 * s)

/-- Whether `n / d` units round to `units`. -/
def readsBack (units n d : Nat) : Bool :=
  let even := (units / spacing units) % 2 == 0
  let lo := (interval units).1 * d
  let hi := (interval units).2 * d
  if even then lo ≤ 4 * n && 4 * n ≤ hi else lo < 4 * n && 4 * n < hi

def distance (a b : Nat) : Nat :=
  (a - b) + (b - a)

/-- The multiple of `n / d` units next to `units` that reads back, as a factor. -/
def hit? (units n d : Nat) : Option Nat :=
  let low := units * d / n
  let high := low + 1
  let gap := fun k => distance (k * n) (units * d)
  match readsBack units (low * n) d, readsBack units (high * n) d with
  | false, false => none
  | true, false => some low
  | false, true => some high
  | true, true =>
    if gap low < gap high then some low
    else if gap high < gap low then some high
    else some (low + low % 2)

/-- The number of digits before the point; zero or negative if there are zeros behind it. -/
def magnitude (units : Nat) : Int :=
  (Nat.toDigits 10 (units * Nat.pow 10 324 / one)).length - 324

/-- The digits of a hit on the grid of decimals with `count` digits. -/
def hitWith? (units count : Nat) : Option Decimal :=
  let step := magnitude units - count
  let n := one * Nat.pow 10 step.toNat
  let d := Nat.pow 10 (-step).toNat
  (hit? units n d).map (fun k =>
    let digits := Nat.toDigits 10 k
    ⟨(digits.reverse.dropWhile (· == '0')).reverse, digits.length + step⟩)

/-- The shortest decimal of a positive magnitude. Seventeen digits always suffice. -/
def shortest (units : Nat) : Decimal :=
  ((List.range 17).findSome? (fun i => hitWith? units (i + 1))).getD ⟨['0'], 1⟩

def zeros (n : Nat) : List Char :=
  List.replicate n '0'

/-- Digits with the point among them, and at least one digit on each side. -/
def positional (d : Decimal) : List Char :=
  if d.point ≤ 0 then
    ['0', '.'] ++ zeros (-d.point).toNat ++ d.digits
  else
    let whole := d.point.toNat
    let fraction := d.digits.drop whole
    d.digits.take whole ++ zeros (whole - d.digits.length) ++
      '.' :: (if fraction.isEmpty then ['0'] else fraction)

def signed (n : Int) : List Char :=
  (if n < 0 then '-' else '+') :: Nat.toDigits 10 n.natAbs

/-- One digit before the point, and the power of ten with its sign. -/
def scientific (d : Decimal) : List Char :=
  d.digits.take 1 ++ (if d.digits.length ≤ 1 then [] else '.' :: d.digits.drop 1) ++
    'e' :: signed (d.point - 1)

/-- Positional from `0.00001` up to sixteen digits before the point, scientific elsewhere. -/
def magnitudeText (units : Nat) : List Char :=
  if units = 0 then ['0', '.', '0']
  else
    let d := shortest units
    if -5 < d.point && d.point ≤ 16 then positional d else scientific d

def text (x : Binary64) : String :=
  String.ofList ((if x.negative then ['-'] else []) ++ magnitudeText x.units)

end Binary64

end EditHook
