import EditHook.Glob.Shape

/-! The pieces of a glob and the bytes each stands for. Only a brace group without any text in it
stands for nothing at all; such a group, and a choice made only of such groups, drops out. -/

namespace EditHook

inductive Piece where
  | literal (c : Char)
  /-- One byte, written `?`. -/
  | one
  /-- Any bytes, written `*`. -/
  | star
  /-- Any directories at the start, written `**/`. -/
  | leading
  /-- A separator, or any directories between two, written `/**/`. -/
  | between
  /-- A separator and all below it, written `/**`. -/
  | trailing
  | charSet (negated : Bool) (ranges : List (Char × Char))
  /-- The choices of a brace group, if any of them has text. -/
  | group (choices : Option Shape)
  deriving DecidableEq, Repr

namespace Piece

def slash : Shape := .byte (.only 0x2F)

/-- The bytes of a range of characters. Only the last byte of the lower end and the first byte of
the upper end bound a range of bytes; their other bytes are members of their own. -/
def byteRanges (lo hi : Char) : List (UInt8 × UInt8) :=
  let low := String.utf8EncodeChar lo
  let high := String.utf8EncodeChar hi
  if lo = hi then low.map (fun b => (b, b))
  else
    low.dropLast.map (fun b => (b, b)) ++ (low.getLastD 0, high.headD 0) ::
      high.tail.map (fun b => (b, b))

/-- The bytes a piece stands for. -/
def shape : Piece → Option Shape
  | literal c => some (.bytes (String.utf8EncodeChar c))
  | one => some (.byte .all)
  | star => some .anything
  | leading => some (.either .empty (.seq .anything slash))
  | between => some (.either slash (.seq slash (.seq .anything slash)))
  | trailing => some (.seq slash .anything)
  | charSet negated ranges =>
    some (.byte ⟨ranges.flatMap (fun r => byteRanges r.1 r.2), negated⟩)
  | group choices => choices

/-- Whether a `**` may follow as a directory of its own: the text so far ends in a separator. -/
def endsAtSeparator : Piece → Bool
  | literal c => c == '/'
  | leading => true
  | between => true
  | _ => false

/-- The bytes that pieces in a row stand for, unless they have no text. -/
def sequence : List Piece → Option Shape
  | [] => none
  | p :: ps =>
    match p.shape, sequence ps with
    | some s, some rest => some (.seq s rest)
    | some s, none => some s
    | none, rest => rest

/-- The bytes that one of several choices stands for. -/
def choice : List Shape → Option Shape
  | [] => none
  | s :: ss =>
    match choice ss with
    | some rest => some (.either s rest)
    | none => some s

end Piece

end EditHook
