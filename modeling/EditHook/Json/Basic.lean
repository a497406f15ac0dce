import EditHook.Number.Binary64

/-! JSON values. The members of an object stand in the order of the text, repeated keys included;
of several members with one key the last one counts. -/

namespace EditHook

inductive Scalar where
  | null
  | boolean (b : Bool)
  | integer (n : Int)
  | real (x : Binary64)
  | text (s : String)
  deriving DecidableEq, Repr

inductive Json where
  | scalar (s : Scalar)
  | list (items : List Json)
  | object (members : List (String × Json))
  deriving Repr

namespace Json

abbrev null : Json := scalar .null

def member? (key : String) : Json → Option Json
  | object members => members.reverse.lookup key
  | _ => none

/-- The text under a key, unless it is empty. -/
def textMember? (key : String) (j : Json) : Option String :=
  match j.member? key with
  | some (scalar (.text s)) => if s.isEmpty then none else some s
  | _ => none

end Json

end EditHook
