import EditHook.Number.Binary64

/-! How similar two words are, for proposing a word that may have been meant. Characters match when
they are equal and stand at most half the longer length apart; matches out of order count less. -/

namespace EditHook

namespace Similar

/-- Takes the first unmatched `c` among some characters that are marked as matched or not, from
place `lo` up to place `hi`, where the first of them stands at place `at`. -/
def mark (c : Char) (lo hi : Nat) : Nat → List (Char × Bool) → Option (List (Char × Bool))
  | _, [] => none
  | i, (d, taken) :: rest =>
    if hi ≤ i then none
    else if lo ≤ i && d = c && !taken then some ((d, true) :: rest)
    else (mark c lo hi (i + 1) rest).map ((d, taken) :: ·)

/-- The matched characters of the first word, and the second word with its matched characters. -/
def pairUp (reach : Nat) : Nat → List Char → List (Char × Bool) → List Char × List (Char × Bool)
  | _, [], b => ([], b)
  | i, c :: rest, b =>
    match mark c (i - reach) (i + reach + 1) 0 b with
    | some b =>
      let more := pairUp reach (i + 1) rest b
      (c :: more.1, more.2)
    | none => pairUp reach (i + 1) rest b

open Binary64 in
/-- The similarity of two words between zero and one, as a magnitude. -/
def degree (a b : List Char) : Nat :=
  if a.isEmpty && b.isEmpty then one
  else
    let reach := Nat.max a.length b.length / 2 - 1
    let paired := pairUp reach 0 a (b.map (·, false))
    let first := paired.1
    let second := (paired.2.filter (·.2)).map (·.1)
    let matched := first.length
    let crossed := ((first.zip second).filter (fun p => p.1 != p.2)).length / 2
    let share := fun n d => quotient (roundNat n) (roundNat d)
    if matched = 0 then 0
    else
      quotient (Binary64.sum (Binary64.sum (share matched a.length) (share matched b.length))
        (share (matched - crossed) matched)) (roundNat 3)

/-- The least degree that is not yet enough for a proposal. -/
def threshold : Nat :=
  Binary64.quotient (Binary64.roundNat 7) (Binary64.roundNat 10)

/-- The word most similar to `text`, the last one of equals, if any is similar enough. -/
def best? (text : String) (words : List String) : Option String :=
  (words.foldl (fun found w =>
    let d := degree text.toList w.toList
    if threshold < d && (found.map (·.2)).getD 0 ≤ d then some (w, d) else found)
    (none : Option (String × Nat))).map (·.1)

end Similar

end EditHook
