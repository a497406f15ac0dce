import EditHook.Files.View
import EditHook.Log.Level

/-! What the command line asks for, and what is said of one that is not understood. -/

namespace EditHook

structure Options where
  file : Option String
  /-- The arguments behind the file. They are not used. -/
  extra : List String
  config : Option RawPath
  level : LogLevel
  deriving DecidableEq, Repr

/-- The options with a value. -/
inductive Setting where
  | config
  | logLevel
  deriving DecidableEq, Repr

/-- The options without a value. -/
inductive Inquiry where
  | help
  | version
  deriving DecidableEq, Repr

inductive Usable where
  | setting (s : Setting)
  | inquiry (i : Inquiry)
  | file
  deriving DecidableEq, Repr

inductive Misuse where
  /-- An option that does not exist, and one that may have been meant. -/
  | unknown (argument : String) (similar : Option String) (used : List Usable)
  | unexpectedValue (value : String) (option : Inquiry) (used : List Usable)
  | missingValue (option : Setting)
  | repeated (option : Setting)
  | badLevel (value : String) (similar : Option String)
  | notText
  deriving DecidableEq, Repr

inductive Request where
  | run (o : Options)
  | answer (i : Inquiry)
  | refuse (m : Misuse)
  deriving DecidableEq, Repr

namespace Setting

def name : Setting → String
  | config => "config"
  | logLevel => "log-level"

def shown : Setting → String
  | config => "--config <CONFIG>"
  | logLevel => "--log-level <LOG_LEVEL>"

/-- The values that can be given, if only some can. -/
def values : Setting → List String
  | config => []
  | logLevel => LogLevel.names

end Setting

namespace Inquiry

def name : Inquiry → String
  | help => "help"
  | version => "version"

def shown (i : Inquiry) : String :=
  "--" ++ i.name

end Inquiry

def longNames : List String :=
  [Setting.config.name, Setting.logLevel.name, Inquiry.help.name, Inquiry.version.name]

def settingOf? (name : String) : Option Setting :=
  [Setting.config, Setting.logLevel].find? (fun s => s.name == name)

def inquiryOf? (name : String) : Option Inquiry :=
  [Inquiry.help, Inquiry.version].find? (fun i => i.name == name)

def usableOf? (name : String) : Option Usable :=
  ((settingOf? name).map .setting).or ((inquiryOf? name).map .inquiry)

namespace Usable

/-- An option as the usage line shows it. The file has a place of its own. -/
def shown? : Usable → Option String
  | setting s => some s.shown
  | inquiry i => some i.shown
  | file => none

/-- The usage line for a command line that uses some options. -/
def usage (used : List Usable) : String :=
  "Usage: post-edit-lint " ++
    if used.isEmpty then "[OPTIONS] [FILE]"
    else " ".intercalate (used.filterMap shown? ++ [if used.contains file then "<FILE>" else "[FILE]"])

end Usable

namespace Misuse

def choices (values : List String) : String :=
  if values.isEmpty then "" else "\n  [possible values: " ++ ", ".intercalate values ++ "]"

def missing (s : Setting) : String :=
  "a value is required for '" ++ s.shown ++ "' but none was supplied" ++ choices s.values

def tip (text : String) : String :=
  "\n\n  tip: " ++ text

def withUsage (used : List Usable) : String :=
  "\n\n" ++ Usable.usage used

/-- What is wrong, with proposals and the usage line where they help. -/
def explanation : Misuse → String
  | unknown argument similar used =>
    "unexpected argument '" ++ argument ++ "' found" ++
      (match similar with
        | some name => tip ("a similar argument exists: '--" ++ name ++ "'")
        | none => tip ("to pass '" ++ argument ++ "' as a value, use '-- " ++ argument ++ "'")) ++
      withUsage used
  | unexpectedValue value option used =>
    "unexpected value '" ++ value ++ "' for '" ++ option.shown ++
      "' found; no more were expected" ++ withUsage used
  | missingValue option => missing option
  | repeated option =>
    "the argument '" ++ option.shown ++ "' cannot be used multiple times" ++ withUsage []
  | badLevel value similar =>
    if value.isEmpty then missing .logLevel
    else
      "invalid value '" ++ value ++ "' for '" ++ Setting.logLevel.shown ++ "'" ++
        choices LogLevel.names ++
        (match similar with
          | some name => tip ("a similar value exists: '" ++ name ++ "'")
          | none => "")
  | notText => "invalid UTF-8 was detected in one or more arguments" ++ withUsage []

def message (m : Misuse) : String :=
  "error: " ++ m.explanation ++ "\n\nFor more information, try '--help'.\n"

end Misuse

def helpText : String :=
  "\n".intercalate [
    "Run linters and formatters on a file after Claude Code edits it",
    "",
    Usable.usage [],
    "",
    "Arguments:",
    "  [FILE]  File to check. When omitted, a PostToolUse hook payload is read from stdin. " ++
      "Put `--` first for a path that starts with `-`",
    "",
    "Options:",
    "      --config <CONFIG>        Path to the KDL rule table",
    "      --log-level <LOG_LEVEL>  Verbosity of ~/.local/share/post-edit-lint/hook.log " ++
      "[default: info] [possible values: off, error, warn, info, debug, trace]",
    "  -h, --help                   Print help",
    "  -V, --version                Print version",
    ""]

def Inquiry.text : Inquiry → String
  | help => helpText
  | version => "post-edit-lint 0.1.0\n"

end EditHook
