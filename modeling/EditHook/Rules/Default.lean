import EditHook.Rules.OfDocument

/-! The table that is used where no other is given or found. -/

namespace EditHook

namespace RuleTable

def defaultText : String :=
  "\n".intercalate [
    "// Default post-edit-lint rule table.",
    "//",
    "// root \"<dir>\": commands run inside <dir>, and patterns are matched against",
    "//   \"<dir>/<pattern>\". \"/\" means the current directory with no prefix.",
    "// pattern \"<glob>\" [\"<glob>\" ...]: several globs match if any of them does.",
    "// run \"<program>\" \"<arg>\" ...: \"$@\" is replaced with the edited file's path",
    "//   relative to the root. Commands run in the order written.",
    "",
    "root \"/\" \x7b",
    "    // Sources: format, type check, then lint fixes",
    "    pattern \"src/**/*.ts\" \x7b",
    "        run \"pnpm\" \"run\" \"format\" \"--\" \"$@\"",
    "        run \"npx\" \"tsc\" \"--noEmit\" \"$@\"",
    "        run \"pnpm\" \"run\" \"lint:fix\" \"--\" \"$@\"",
    "    \x7d",
    "",
    "    // Tests are type checked under a different tsconfig, so format and lint only",
    "    pattern \"test/**/*.ts\" \x7b",
    "        run \"npx\" \"prettier\" \"--write\" \"$@\"",
    "        run \"npx\" \"eslint\" \"--fix\" \"$@\"",
    "    \x7d",
    "",
    "    pattern \"*.md\" \"*.json\" \x7b",
    "        run \"npx\" \"prettier\" \"--write\" \"--log-level=warn\" \"$@\"",
    "    \x7d",
    "\x7d",
    ""]

def builtIn : Load RuleTable :=
  ofText defaultText

end RuleTable

end EditHook
