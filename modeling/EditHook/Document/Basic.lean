/-! The node tree of a rule document. Every node keeps the byte offset at which it starts; values
that are not text keep only the way they were written. -/

namespace EditHook

inductive Value where
  | text (s : String)
  /-- A number, a boolean or null. -/
  | scalar (written : String)
  deriving DecidableEq, Repr

/-- An argument, or a property when it has a key. -/
structure Entry where
  key : Option String
  value : Value
  deriving DecidableEq, Repr

structure Node where
  start : Nat
  name : String
  entries : List Entry
  /-- The nodes of its block, if it has one. -/
  children : Option (List Node)
  deriving Repr

end EditHook
