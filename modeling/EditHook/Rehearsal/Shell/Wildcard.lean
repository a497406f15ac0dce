/-! Wildcard patterns of the rehearsal's shell, which are not the globs of the rules. Quoted
characters of a pattern stand for themselves. -/

namespace EditHook

namespace Shell

namespace Wildcard

inductive Sign where
  | exactly (c : Char)
  | one
  | many
  | among (negated : Bool) (ranges : List (Char × Char))
  deriving DecidableEq, Repr

/-- A character of a pattern, and whether it is quoted. -/
abbrev Written := Char × Bool

def ranges : List Char → List (Char × Char)
  | a :: '-' :: b :: rest => (a, b) :: ranges rest
  | a :: rest => (a, a) :: ranges rest
  | [] => []

/-- A set in brackets, from behind the opening one. A closing bracket right at its start is one of
its characters. -/
def among? (cs : List Written) : Option (Sign × List Written) :=
  let negated := cs.head? = some ('!', false)
  let cs := if negated then cs.drop 1 else cs
  let first := if (cs.head?.map (·.1)) = some ']' then cs.take 1 else []
  let cs := cs.drop first.length
  let body := cs.takeWhile (fun c => c != (']', false))
  match cs.drop body.length with
  | [] => none
  | _ :: rest => some (.among negated (ranges ((first ++ body).map (·.1))), rest)

def signs : Nat → List Written → List Sign
  | 0, _ => []
  | _ + 1, [] => []
  | fuel + 1, (c, isQuoted) :: rest =>
    if isQuoted then .exactly c :: signs fuel rest
    else if c = '*' then .many :: signs fuel rest
    else if c = '?' then .one :: signs fuel rest
    else if c = '[' then
      match among? rest with
      | some (s, rest) => s :: signs fuel rest
      | none => .exactly c :: signs fuel rest
    else .exactly c :: signs fuel rest

def ofWritten (cs : List Written) : List Sign :=
  signs (cs.length + 1) cs

def accepts : List Sign → List Char → Bool
  | [], cs => cs.isEmpty
  | .many :: ps, [] => accepts ps []
  | .many :: ps, c :: cs => accepts ps (c :: cs) || accepts (.many :: ps) cs
  | _ :: _, [] => false
  | .exactly d :: ps, c :: cs => c == d && accepts ps cs
  | .one :: ps, _ :: cs => accepts ps cs
  | .among negated rs :: ps, c :: cs =>
    rs.any (fun r => r.1 ≤ c && c ≤ r.2) != negated && accepts ps cs
termination_by ps cs => ps.length + cs.length

/-- Whether a pattern has signs that stand for more than themselves. -/
def isWild (cs : List Written) : Bool :=
  cs.any (fun c => !c.2 && ['*', '?', '['].contains c.1)

/-- What is left without the shortest or the longest part in front that a pattern accepts. -/
def withoutFront (longest : Bool) (ps : List Sign) (cs : List Char) : List Char :=
  let sizes := (List.range (cs.length + 1)).filter (fun n => accepts ps (cs.take n))
  match if longest then sizes.getLast? else sizes.head? with
  | some n => cs.drop n
  | none => cs

/-- What is left without the shortest or the longest part at the end that a pattern accepts. -/
def withoutEnd (longest : Bool) (ps : List Sign) (cs : List Char) : List Char :=
  let sizes := (List.range (cs.length + 1)).filter (fun n => accepts ps (cs.drop n))
  match if longest then sizes.head? else sizes.getLast? with
  | some n => cs.take n
  | none => cs

end Wildcard

end Shell

end EditHook
