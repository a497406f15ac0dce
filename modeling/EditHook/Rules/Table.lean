import EditHook.Glob.Basic
import EditHook.Rules.Command
import EditHook.Rules.Root

/-! Rule tables: sections of rules, each rule with globs and commands. The order of declaration is
the order in which commands run. -/

namespace EditHook

/-- A glob as written, and compiled with its root in front. -/
structure ScopedGlob where
  text : String
  glob : Glob
  deriving DecidableEq, Repr

inductive Pattern where
  | single (g : ScopedGlob)
  | anyOf (gs : List ScopedGlob)
  deriving DecidableEq, Repr

namespace Pattern

def globs : Pattern → List ScopedGlob
  | single g => [g]
  | anyOf gs => gs

def accepts (p : Pattern) (path : String) : Bool :=
  p.globs.any (fun g => g.glob.accepts path)

/-- One glob stands alone; any other number are alternatives. -/
def ofGlobs : List ScopedGlob → Pattern
  | [g] => single g
  | gs => anyOf gs

end Pattern

structure Rule where
  pattern : Pattern
  commands : List Command
  /-- The line of its pattern in the text of the table. -/
  line : Nat
  deriving DecidableEq, Repr

structure Section where
  root : Root
  rules : List Rule
  deriving DecidableEq, Repr

structure RuleTable where
  sections : List Section
  deriving DecidableEq, Repr

/-- A command that is to run, with the root it runs under. -/
structure Selected where
  root : Root
  command : Command
  deriving DecidableEq, Repr

namespace RuleTable

/-- The rules whose pattern accepts a path, each with its root. -/
def rulesFor (t : RuleTable) (path : String) : List (Root × Rule) :=
  t.sections.flatMap (fun s =>
    (s.rules.filter (fun r => r.pattern.accepts path)).map (fun r => (s.root, r)))

/-- The commands for a path, in the order in which they run. -/
def select (t : RuleTable) (path : String) : List Selected :=
  (t.rulesFor path).flatMap (fun r => r.2.commands.map (Selected.mk r.1))

end RuleTable

end EditHook
