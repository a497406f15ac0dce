import EditHook.Rehearsal.Tools.Changing
import EditHook.Rehearsal.Tools.Condition
import EditHook.Rehearsal.Tools.Reading

/-! The programs of a rehearsal by their names. -/

namespace EditHook

namespace Tool

open Job

def echo (j : Job) : Done :=
  let isOption := fun (a : String) =>
    a.startsWith "-" && a != "-" && (a.toList.drop 1).all ['n', 'e', 'E'].contains
  let options := (j.arguments.takeWhile isOption).flatMap (fun a => a.toList.drop 1)
  let escapes := (options.filter (· != 'n')).getLast? == some 'e'
  j.print (Format.echoed escapes (!options.contains 'n') (j.arguments.dropWhile isOption))

def printf (j : Job) : Done :=
  match j.arguments with
  | [] => missingOperand j "printf"
  | format :: texts =>
    let (bytes, bad) := Format.printed (texts.length + 1) format texts
    { j.finish (if bad.isEmpty then 0 else 1) with
      printed := bad.map (fun b =>
        (.complaint, utf8 ("printf: '" ++ b ++ "': expected a numeric value\n"))) ++
          [(.output, bytes)] }

def currentDirectory (j : Job) : Done :=
  if j.here.getLast? = some Files.nameless then
    j.refuse 1 "pwd: couldn't find directory entry in '..' with matching i-node"
  else j.print (utf8 (Files.pathOf j.here ++ "\n"))

def condition (name : String) (j : Job) : Done :=
  match Condition.verdict name j.files j.here j.arguments with
  | (code, none) => j.finish code
  | (code, some m) => j.refuse code (name ++ ": " ++ m)

def directoryName (path : String) : String :=
  let above := (withoutSlash path).toList.reverse.dropWhile (· != '/')
  if above.isEmpty then "."
  else
    let cs := above.dropWhile (· == '/')
    if cs.isEmpty then "/" else String.ofList cs.reverse

/-- Prints what is made of the first argument. -/
def naming (name : String) (make : String → List String → String) (j : Job) : Done :=
  match j.arguments with
  | [] => missingOperand j name
  | a :: more => j.print (utf8 (make a more ++ "\n"))

def withoutSuffix (name suffix : String) : String :=
  if name.endsWith suffix && name != suffix then (name.dropEnd suffix.length).toString else name

def table : List (String × Tool) :=
  [("true", fun j => j.finish 0), ("false", fun j => j.finish 1), ("sleep", fun j => j.finish 0),
    ("echo", echo), ("printf", printf), ("pwd", currentDirectory), ("test", condition "test"),
    ("[", condition "["), ("cat", cat), ("head", head), ("tail", tail), ("wc", wordCount),
    ("sort", sort), ("uniq", uniq), ("seq", seq), ("grep", grep), ("tr", tr), ("yes", yes),
    ("mkdir", makeDirectory), ("rmdir", removeDirectory), ("rm", remove), ("touch", touch),
    ("ls", list), ("cp", transferring "cp" false), ("mv", transferring "mv" true), ("tee", tee),
    ("basename", naming "basename" (fun a more => withoutSuffix (baseName a) (more.headD ""))),
    ("dirname", naming "dirname" (fun a _ => directoryName a))]

def named? (name : String) : Option Tool :=
  table.lookup name

end Tool

end EditHook
