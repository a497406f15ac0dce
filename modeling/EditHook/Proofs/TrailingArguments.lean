import EditHook.Program
import EditHook.Proofs.HookExits
import EditHook.Proofs.Results
import EditHook.Proofs.Utf8Text

/-! Command lines with two hyphens between the options and the file. Whatever stands behind the hyphens
is the file or an extra argument, and extra arguments change nothing but the log. -/

namespace EditHook

namespace CommandLine

/-- An option with its value, as one argument with a sign of equality or as two. -/
inductive Given where
  | config (path : Argument) (joined : Bool)
  | level (l : LogLevel) (joined : Bool)

namespace Given

def setting : Given → Setting
  | config _ _ => .config
  | level _ _ => .logLevel

def value : Given → Argument
  | config path _ => path
  | level l _ => utf8 l.name

def joined : Given → Bool
  | config _ j => j
  | level _ j => j

def arguments (g : Given) : List Argument :=
  if g.joined then [utf8 ("--" ++ g.setting.name ++ "=") ++ g.value]
  else [utf8 ("--" ++ g.setting.name), g.value]

end Given

section

variable {st ready : State} {g : Given}

theorem step_plain {a : Argument} (ht : st.trailing = false) (ha : a.head? ≠ some hyphen) :
    step st a = plain st a := by
  match a, ha with
  | [], _ => simp [step, ht]
  | [_], _ => simp [step, ht]
  | x :: y :: rest, ha =>
    have hx : x ≠ hyphen := by simpa using ha
    simp [step, ht, hx]

section

variable {gs : List Given} {α : Type} {s : Setting} {value? : Given → Option α}

end

end

end CommandLine

open CommandLine

end EditHook
