/-! Integer expressions of the rehearsal's shell. Names stand for the integers that their values
spell, and for zero without one. -/

namespace EditHook

namespace Shell

namespace Arithmetic

inductive Sign where
  | number (n : Int)
  | name (s : String)
  | operator (s : String)
  deriving DecidableEq, Repr

/-- The longest first. -/
def operators : List String :=
  ["&&", "||", "==", "!=", "<=", ">=", "<<", ">>", "<", ">", "+", "-", "*", "/", "%", "!", "~", "&",
    "^", "|", "(", ")", "?", ":"]

def signs : Nat → List Char → Option (List Sign)
  | 0, _ => some []
  | _ + 1, [] => some []
  | fuel + 1, c :: rest =>
    if c.isWhitespace then signs fuel rest
    else if c.isDigit then
      let digits := (c :: rest).takeWhile Char.isDigit
      (signs fuel ((c :: rest).dropWhile Char.isDigit)).map
        (.number ((String.ofList digits).toInt?.getD 0) :: ·)
    else if c.isAlpha || c = '_' then
      let part := fun (d : Char) => d.isAlphanum || d == '_'
      (signs fuel ((c :: rest).dropWhile part)).map
        (.name (String.ofList ((c :: rest).takeWhile part)) :: ·)
    else
      match operators.find? (fun o => o.toList.isPrefixOf (c :: rest)) with
      | some o => (signs fuel ((c :: rest).drop o.length)).map (.operator o :: ·)
      | none => none

def truth (b : Bool) : Int :=
  if b then 1 else 0

/-- The operators of each rank, from the weakest. -/
def ranks : List (List String) :=
  [["||"], ["&&"], ["|"], ["^"], ["&"], ["==", "!="], ["<", "<=", ">", ">="], ["<<", ">>"],
    ["+", "-"], ["*", "/", "%"]]

inductive Defect where
  | malformed
  | divisionByZero
  deriving DecidableEq, Repr

def Defect.message : Defect → String
  | malformed => "expecting primary"
  | divisionByZero => "division by zero"

def calculate (o : String) (a b : Int) : Except Defect Int :=
  match o with
  | "||" => .ok (truth (a != 0 || b != 0))
  | "&&" => .ok (truth (a != 0 && b != 0))
  | "==" => .ok (truth (a == b))
  | "!=" => .ok (truth (a != b))
  | "<" => .ok (truth (a < b))
  | "<=" => .ok (truth (a ≤ b))
  | ">" => .ok (truth (b < a))
  | ">=" => .ok (truth (b ≤ a))
  | "+" => .ok (a + b)
  | "-" => .ok (a - b)
  | "*" => .ok (a * b)
  | "/" => if b = 0 then .error .divisionByZero else .ok (a.tdiv b)
  | "%" => if b = 0 then .error .divisionByZero else .ok (a.tmod b)
  | "<<" => .ok (a * Int.ofNat (Nat.pow 2 b.toNat))
  | ">>" => .ok (a / Int.ofNat (Nat.pow 2 b.toNat))
  | "&" => .ok (Int.ofNat (a.toNat &&& b.toNat))
  | "|" => .ok (Int.ofNat (a.toNat ||| b.toNat))
  | "^" => .ok (Int.ofNat (a.toNat ^^^ b.toNat))
  | _ => .error .malformed

mutual

/-- The value of the signs in front, with operators of the given ranks. -/
def valueAt (look : String → Int) :
    Nat → List (List String) → List Sign → Except Defect (Int × List Sign)
  | 0, _, _ => .error .malformed
  | fuel + 1, [], ss =>
    match ss with
    | .number n :: rest => .ok (n, rest)
    | .name s :: rest => .ok (look s, rest)
    | .operator "-" :: rest => (valueAt look fuel [] rest).map (fun r => (-r.1, r.2))
    | .operator "+" :: rest => valueAt look fuel [] rest
    | .operator "!" :: rest => (valueAt look fuel [] rest).map (fun r => (truth (r.1 == 0), r.2))
    | .operator "~" :: rest => (valueAt look fuel [] rest).map (fun r => (-r.1 - 1, r.2))
    | .operator "(" :: rest =>
      match valueAt look fuel ranks rest with
      | .ok (n, .operator ")" :: rest) => .ok (n, rest)
      | .ok _ => .error .malformed
      | .error d => .error d
    | _ => .error .malformed
  | fuel + 1, r :: higher, ss => do
    let (a, rest) ← valueAt look fuel higher ss
    continued look fuel r higher a rest

/-- Goes on from a first operand with operators of one rank. -/
def continued (look : String → Int) :
    Nat → List String → List (List String) → Int → List Sign → Except Defect (Int × List Sign)
  | 0, _, _, _, _ => .error .malformed
  | fuel + 1, r, higher, a, ss =>
    match ss with
    | .operator o :: rest =>
      if r.contains o then do
        let (b, rest) ← valueAt look fuel higher rest
        let c ← calculate o a b
        continued look fuel r higher c rest
      else .ok (a, ss)
    | _ => .ok (a, ss)

end

def value (look : String → Int) (text : String) : Except Defect Int := do
  let some ss := signs (text.length + 1) text.toList | throw .malformed
  if ss.isEmpty then return 0
  let (n, rest) ← valueAt look (20 * ss.length + 20) ranks ss
  if rest.isEmpty then return n else throw .malformed

end Arithmetic

end Shell

end EditHook
