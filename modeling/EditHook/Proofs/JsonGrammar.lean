import EditHook.Json.Reader
import EditHook.Proofs.JsonWriting

/-! The grammar of JSON, apart from any reader: which characters spell which value. Blanks may stand
around every part, any character of a text may be escaped, and a number may have any of its forms. -/

namespace EditHook

namespace Json

def Blanks (cs : List Char) : Prop :=
  ∀ c ∈ cs, isBlank c = true

theorem Blanks.nil : Blanks [] := by
  simp [Blanks]

def Follows (cs : List Char) : Prop :=
  ∀ c ∈ cs.head?, isBlank c = true ∨ c = ',' ∨ c = ']' ∨ c = '\x7d'

/-- A character of a text, or a unit of UTF-16 that is given by its number. -/
inductive Glyph where
  | char (c : Char)
  | unit (n : Nat)

inductive Glyph.Spelled : Glyph → List Char → Prop where
  | plain {c : Char} : c ≠ '"' → c ≠ '\\' → 0x20 ≤ c.toNat → Spelled (.char c) [c]
  | short {letter c : Char} : shortEscape? letter = some c → Spelled (.char c) ['\\', letter]
  | unit {cs : List Char} {digits : List Nat} : cs.length = 4 → cs.mapM hexDigit? = some digits →
      Spelled (.unit (digits.foldl (fun n d => n * 16 + d) 0)) ('\\' :: 'u' :: cs)

/-- The characters that glyphs stand for. A surrogate stands for one only with its other half. -/
def decoded? : List Glyph → Option (List Char)
  | [] => some []
  | .char c :: gs => (decoded? gs).map (c :: ·)
  | .unit n :: gs =>
    if isTrailing n then none
    else if isLeading n then
      match gs with
      | .unit m :: gs =>
        if isTrailing m then
          (decoded? gs).map (Char.ofNat ((n - 0xD800) * 0x400 + (m - 0xDC00) + 0x10000) :: ·)
        else none
      | _ => none
    else (decoded? gs).map (Char.ofNat n :: ·)

def textOf? (gs : List Glyph) : Option String :=
  (decoded? gs).map String.ofList

inductive SpellsText : List Glyph → List Char → Prop where
  | nil : SpellsText [] ['"']
  | cons {g : Glyph} {gs : List Glyph} {cs more : List Char} :
      g.Spelled cs → SpellsText gs more → SpellsText (g :: gs) (cs ++ more)

def Numeral.scalar? (n : Numeral) : Option Scalar :=
  (number n.negative n.unsigned).toOption.map Prod.fst

/-- What is said by a JSON text. There is no number where one is out of range, and no text where a
surrogate stands alone. -/
inductive Meaning where
  | null
  | boolean (b : Bool)
  | number (s? : Option Scalar)
  | text (s? : Option String)
  | list (items : List Meaning)
  | object (members : List (Option String × Meaning))

inductive Lead : Bool → List Char → Prop where
  | first {cs : List Char} : Blanks cs → Lead true cs
  | further {cs ds : List Char} : Blanks cs → Blanks ds → Lead false (cs ++ ',' :: ds)

mutual

inductive Spells : Meaning → List Char → Prop where
  | null : Spells .null ['n', 'u', 'l', 'l']
  | trueWord : Spells (.boolean true) ['t', 'r', 'u', 'e']
  | falseWord : Spells (.boolean false) ['f', 'a', 'l', 's', 'e']
  | number (n : Numeral) : Spells (.number n.scalar?) n.chars
  | text {gs : List Glyph} {cs : List Char} : SpellsText gs cs → Spells (.text (textOf? gs)) ('"' :: cs)
  | list {ms : List Meaning} {cs : List Char} : SpellsItems true ms cs → Spells (.list ms) ('[' :: cs)
  | object {ms : List (Option String × Meaning)} {cs : List Char} :
      SpellsMembers true ms cs → Spells (.object ms) ('\x7b' :: cs)

inductive SpellsItems : Bool → List Meaning → List Char → Prop where
  | nil {first : Bool} {cs : List Char} : Blanks cs → SpellsItems first [] (cs ++ [']'])
  | cons {first : Bool} {m : Meaning} {ms : List Meaning} {lead cs more : List Char} :
      Lead first lead → Spells m cs → SpellsItems false ms more →
      SpellsItems first (m :: ms) (lead ++ (cs ++ more))

inductive SpellsMembers : Bool → List (Option String × Meaning) → List Char → Prop where
  | nil {first : Bool} {cs : List Char} : Blanks cs → SpellsMembers first [] (cs ++ ['\x7d'])
  | cons {first : Bool} {gs : List Glyph} {m : Meaning} {ms : List (Option String × Meaning)}
      {lead key before behind cs more : List Char} :
      Lead first lead → SpellsText gs key → Blanks before → Blanks behind → Spells m cs →
      SpellsMembers false ms more →
      SpellsMembers first ((textOf? gs, m) :: ms)
        (lead ++ '"' :: (key ++ (before ++ ':' :: (behind ++ (cs ++ more)))))

end

def IsText (m : Meaning) (text : String) : Prop :=
  ∃ before cs behind, Blanks before ∧ Spells m cs ∧ Blanks behind ∧
    text.toList = before ++ (cs ++ behind)

namespace Meaning

mutual

/-- What a reader gets that may have so many brackets open at once. -/
def read? : Nat → Meaning → Option Json
  | _, null => some .null
  | _, boolean b => some (.scalar (.boolean b))
  | _, number s? => s?.map .scalar
  | _, text s? => s?.map fun s => .scalar (.text s)
  | 0, list _ => none
  | levels + 1, list ms => (readItems? levels ms).map .list
  | 0, object _ => none
  | levels + 1, object ms => (readMembers? levels ms).map .object

def readItems? : Nat → List Meaning → Option (List Json)
  | _, [] => some []
  | levels, m :: ms => (read? levels m).bind fun j => (readItems? levels ms).map (j :: ·)

def readMembers? : Nat → List (Option String × Meaning) → Option (List (String × Json))
  | _, [] => some []
  | levels, (key?, m) :: ms =>
    key?.bind fun key => (read? levels m).bind fun j =>
      (readMembers? levels ms).map ((key, j) :: ·)

end

end Meaning

end Json

end EditHook
