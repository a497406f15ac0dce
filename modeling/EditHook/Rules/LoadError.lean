import EditHook.Files.View
import EditHook.Glob.Reader
import EditHook.Text.Utf8

/-! Why a rule table does not load, and the texts that say so. -/

namespace EditHook

/-- What is wrong with a node of a document that was read. -/
inductive Defect where
  | strayAtTop (name : String)
  | strayInRoot (name root : String)
  | strayInPattern (name : String)
  | property (node : String)
  | notText (node : String)
  | rootCount
  | noRules (root : String)
  | noGlobs
  | noProgram
  | noCommands (globs : List String)
  deriving DecidableEq, Repr

def quotedInList (texts : List String) : String :=
  "\"" ++ "\" \"".intercalate texts ++ "\""

def Defect.message : Defect → String
  | strayAtTop name => "unknown node '" ++ name ++ "'; expected root"
  | strayInRoot name root =>
    "unknown node '" ++ name ++ "' in root " ++ quotedInList [root] ++ "; expected pattern"
  | strayInPattern name => "unknown node '" ++ name ++ "' in pattern; expected run"
  | property node => node ++ " node has a property; only quoted strings are allowed"
  | notText node =>
    node ++ " node contains non-string values; all entries must be quoted strings"
  | rootCount => "root node requires exactly one directory"
  | noRules root => "root " ++ quotedInList [root] ++ " has no pattern rules"
  | noGlobs => "pattern node requires at least one glob"
  | noProgram => "run node requires a program"
  | noCommands globs => "pattern " ++ quotedInList globs ++ " has no run commands"

inductive LoadError where
  | notFound (path : RawPath)
  | unreadable (fault : FileFault)
  /-- The bytes of the file are not UTF-8. -/
  | notText
  /-- The text is not a document at all. -/
  | malformed
  | defect (line : Nat) (d : Defect)
  | badGlob (line : Nat) (text : String) (cause : GlobError)
  deriving DecidableEq, Repr

def atLine (line : Nat) (text : String) : String :=
  "line " ++ toString line ++ ": " ++ text

def LoadError.message : LoadError → String
  | notFound path => "config file not found: " ++ path.display
  | unreadable fault => "failed to read config: " ++ fault.message
  | notText => "failed to read config: " ++ notTextMessage
  | malformed => "invalid KDL: Failed to parse KDL document"
  | defect line d => "invalid KDL: " ++ atLine line d.message
  | badGlob line text cause =>
    atLine line ("invalid glob pattern '" ++ text ++ "': " ++ cause.message)

end EditHook
