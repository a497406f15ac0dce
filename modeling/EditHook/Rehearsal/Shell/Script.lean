/-! Scripts of the rehearsal's shell. A word is made of parts; what is inside an expansion stays
text until it is needed, so words hold no scripts. This shell stands in for the system's when a
rehearsal runs a command: the hook itself takes any executor, and no theorem is about what the shell
does. -/

namespace EditHook

namespace Shell

/-- A part of a word. Quoted parts are neither split nor dropped when they are empty. -/
inductive Part where
  | text (s : String) (isQuoted : Bool)
  /-- A parameter with an operator and the operand behind it, both empty for a plain one. -/
  | parameter (name operator operand : String) (isQuoted : Bool)
  | length (name : String) (isQuoted : Bool)
  | arithmetic (expression : String) (isQuoted : Bool)
  | output (script : String) (isQuoted : Bool)
  deriving DecidableEq, Repr

abbrev Word := List Part

inductive Direction where
  | from
  | into
  | behind
  /-- The same as another descriptor, whose number is the target. -/
  | like
  deriving DecidableEq, Repr

structure Redirect where
  descriptor : Nat
  direction : Direction
  target : Word
  deriving DecidableEq, Repr

inductive Script where
  | nothing
  | command (line : Nat) (assigned : List (String × Word)) (words : List Word)
    (redirects : List Redirect)
  | pipe (first second : Script)
  | negate (s : Script)
  | both (first second : Script)
  | either (first second : Script)
  | next (first second : Script)
  | branch (condition yes no : Script)
  /-- Runs the body as long as the condition succeeds, or fails where `whileFailing` holds. -/
  | loop (whileFailing : Bool) (condition body : Script)
  /-- Without words it goes through the arguments. -/
  | each (name : String) (words : Option (List Word)) (body : Script)
  /-- Runs `yes` if the word is like one of the patterns. -/
  | choose (word : Word) (patterns : List Word) (yes no : Script)
  | grouped (s : Script) (redirects : List Redirect)
  /-- Leaves variables and the directory as they are. -/
  | isolated (s : Script) (redirects : List Redirect)
  | define (name : String) (body : Script)
  deriving DecidableEq, Repr

structure ScriptError where
  line : Nat
  reason : String
  deriving DecidableEq, Repr

end Shell

end EditHook
