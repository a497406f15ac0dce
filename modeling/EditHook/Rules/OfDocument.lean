import EditHook.Document.Reader
import EditHook.Rules.LoadError
import EditHook.Rules.Table

/-! The rule table of a document. Nodes are checked in the order of the text, and each node from
its name to its block, so the first mistake is the one that is reported. -/

namespace EditHook

abbrev Load (α : Type) := Except LoadError α

namespace Node

def line (text : String) (n : Node) : Nat :=
  Document.lineAt text n.start

def fail (text : String) (n : Node) (d : Defect) : Load α :=
  .error (.defect (n.line text) d)

def entryText (text : String) (n : Node) (e : Entry) : Load String :=
  match e.key, e.value with
  | some _, _ => n.fail text (.property n.name)
  | none, .text s => .ok s
  | none, .scalar _ => n.fail text (.notText n.name)

/-- The entries of a node, all of which have to be text. -/
def texts (text : String) (n : Node) : Load (List String) :=
  n.entries.mapM (n.entryText text)

def compileGlob (text : String) (n : Node) (root : Root) (glob : String) : Load ScopedGlob :=
  match Glob.compile (root.qualify glob) with
  | .ok g => .ok ⟨glob, g⟩
  | .error cause => .error (.badGlob (n.line text) glob cause)

def command (text : String) (n : Node) : Load Command := do
  if n.name ≠ "run" then n.fail text (.strayInPattern n.name)
  let tokens ← n.texts text
  match Command.ofTokens? tokens with
  | some c => return c
  | none => n.fail text .noProgram

def rule (text : String) (root : Root) (rootText : String) (n : Node) : Load Rule := do
  if n.name ≠ "pattern" then n.fail text (.strayInRoot n.name rootText)
  let globTexts ← n.texts text
  if globTexts.isEmpty then n.fail text .noGlobs
  let globs ← globTexts.mapM (n.compileGlob text root)
  let commands ← (n.children.getD []).mapM (command text)
  if commands.isEmpty then n.fail text (.noCommands globTexts)
  return ⟨.ofGlobs globs, commands, n.line text⟩

def ruleSection (text : String) (n : Node) : Load Section := do
  if n.name ≠ "root" then n.fail text (.strayAtTop n.name)
  match ← n.texts text with
  | [rootText] =>
    let root := Root.ofText rootText
    let children := n.children.getD []
    if children.isEmpty then n.fail text (.noRules rootText)
    let rules ← children.mapM (rule text root rootText)
    return ⟨root, rules⟩
  | _ => n.fail text .rootCount

end Node

namespace RuleTable

/-- The table of the nodes of a text. -/
def ofNodes (text : String) (nodes : List Node) : Load RuleTable := do
  let sections ← nodes.mapM (Node.ruleSection text)
  return ⟨sections⟩

def ofText (text : String) : Load RuleTable :=
  match Document.read? text with
  | some nodes => ofNodes text nodes
  | none => .error .malformed

end RuleTable

end EditHook
