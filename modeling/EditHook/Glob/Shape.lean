import EditHook.Text.Utf8

/-! The byte languages a glob can denote, and their matcher. The matcher works backwards: from a
table that says which suffixes of the input may follow, each shape makes the table of the suffixes
that it may start. A table has one entry per suffix, so matching takes time proportional to the
shape times the input, however many stars there are. -/

namespace EditHook

/-- A set of bytes: those in some range, or those in none. -/
structure ByteSet where
  ranges : List (UInt8 × UInt8)
  negated : Bool
  deriving DecidableEq, Repr

namespace ByteSet

def contains (s : ByteSet) (b : UInt8) : Bool :=
  s.ranges.any (fun r => r.1 ≤ b && b ≤ r.2) != s.negated

def only (b : UInt8) : ByteSet := ⟨[(b, b)], false⟩

def all : ByteSet := ⟨[], true⟩

end ByteSet

inductive Shape where
  | empty
  | byte (s : ByteSet)
  | anything
  | seq (first second : Shape)
  | either (left right : Shape)
  deriving DecidableEq, Repr

namespace Shape

def Denotes : Shape → List UInt8 → Prop
  | empty, w => w = []
  | byte s, w => ∃ b, s.contains b = true ∧ w = [b]
  | anything, _ => True
  | seq a b, w => ∃ u v, w = u ++ v ∧ a.Denotes u ∧ b.Denotes v
  | either a b, w => a.Denotes w ∨ b.Denotes w

/-- Entry `i` says whether some entry from `i` on is true. -/
def someLater : List Bool → List Bool
  | [] => []
  | ok :: rest =>
    match someLater rest with
    | [] => [ok]
    | later :: more => (ok || later) :: later :: more

def byteBefore (s : ByteSet) : List UInt8 → List Bool → List Bool
  | b :: bs, _ :: ok => (s.contains b && ok.headD false) :: byteBefore s bs ok
  | _, _ => [false]

/-- From the suffixes of `bs` that may follow to those that may start with this shape. -/
def before : Shape → List UInt8 → List Bool → List Bool
  | empty, _, ok => ok
  | byte s, bs, ok => byteBefore s bs ok
  | anything, _, ok => someLater ok
  | seq a b, bs, ok => a.before bs (b.before bs ok)
  | either a b, bs, ok => List.zipWith (· || ·) (a.before bs ok) (b.before bs ok)

/-- Whether a shape denotes exactly these bytes. -/
def accepts (s : Shape) (bs : List UInt8) : Bool :=
  (s.before bs (List.replicate bs.length false ++ [true])).headD false

/-- The shape of exactly these bytes. -/
def bytes (bs : List UInt8) : Shape :=
  bs.foldr (fun b s => seq (byte (.only b)) s) empty

end Shape

end EditHook
