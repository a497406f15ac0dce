import EditHook.Glob.Reader

/-! Globs: compiled from text, matched against the bytes of a path. -/

namespace EditHook

structure Glob where
  pieces : List Piece
  deriving DecidableEq, Repr

namespace Glob

def compile (text : String) : Except GlobError Glob := do
  let s ← GlobReader.run GlobReader.start text.toList
  let pieces ← GlobReader.finish s
  return ⟨pieces⟩

/-- The paths of a glob. A glob of nothing but `**` matches every path. -/
def shape (g : Glob) : Shape :=
  if g.pieces = [.leading] then .anything else (Piece.sequence g.pieces).getD .empty

def accepts (g : Glob) (path : String) : Bool :=
  g.shape.accepts (utf8 path)

end Glob

end EditHook
