import EditHook.Document.Builder
import EditHook.Document.Scanner

/-! Reading the node tree of a text, and the lines its nodes stand on. -/

namespace EditHook

namespace Document

/-- The top nodes of a text, or nothing if it is not a document. -/
def read? (text : String) : Option (List Node) := do
  let tokens ← Scanner.tokens? text
  let s ← Builder.run Builder.start tokens
  Builder.finish s

/-- The number of line feeds before a byte offset. -/
def feedsBefore : List Char → Nat → Nat
  | [], _ => 0
  | c :: cs, offset =>
    if offset = 0 then 0
    else (if c = '\n' then 1 else 0) + feedsBefore cs (offset - c.utf8Size)

/-- The line, counted from one, of a byte offset. -/
def lineAt (text : String) (offset : Nat) : Nat :=
  feedsBefore text.toList offset + 1

end Document

end EditHook
