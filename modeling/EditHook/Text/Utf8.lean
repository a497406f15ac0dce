/-! The bytes of a text and the text of bytes. Decoding follows the table of well-formed sequences;
the lenient decoder puts one replacement character for each maximal ill-formed part. -/

namespace EditHook

/-- The UTF-8 bytes of a text. -/
def utf8 (s : String) : List UInt8 :=
  s.toList.flatMap String.utf8EncodeChar

def byteLength : List Char → Nat
  | [] => 0
  | c :: cs => c.utf8Size + byteLength cs

/-- What a decoder learns from the front of a byte list: a character with its length, or the length
of the ill-formed part that one replacement character stands for. -/
inductive Decoded where
  | char (c : Char) (length : Nat)
  | bad (length : Nat)

namespace Decoded

def isTail (b : UInt8) : Bool :=
  0x80 ≤ b && b ≤ 0xBF

/-- The admissible second bytes after a leading byte of three or four. -/
def secondRange (lead : UInt8) : UInt8 × UInt8 :=
  if lead = 0xE0 then (0xA0, 0xBF)
  else if lead = 0xED then (0x80, 0x9F)
  else if lead = 0xF0 then (0x90, 0xBF)
  else if lead = 0xF4 then (0x80, 0x8F)
  else (0x80, 0xBF)

def isSecond (lead b : UInt8) : Bool :=
  (secondRange lead).1 ≤ b && b ≤ (secondRange lead).2

/-- The character of a lead value followed by tail bytes of six bits each. -/
def assemble (lead : Nat) (tail : List UInt8) : Char :=
  Char.ofNat (tail.foldl (fun n b => n * 64 + b.toNat % 64) lead)

def front : List UInt8 → Decoded
  | [] => bad 0
  | a :: rest =>
    if a < 0x80 then char (Char.ofNat a.toNat) 1
    else if a < 0xC2 || 0xF4 < a then bad 1
    else if a < 0xE0 then
      match rest with
      | b :: _ => if isTail b then char (assemble (a.toNat % 32) [b]) 2 else bad 1
      | [] => bad 1
    else if a < 0xF0 then
      match rest with
      | b :: more =>
        if isSecond a b then
          match more with
          | c :: _ => if isTail c then char (assemble (a.toNat % 16) [b, c]) 3 else bad 2
          | [] => bad 2
        else bad 1
      | [] => bad 1
    else
      match rest with
      | b :: more =>
        if isSecond a b then
          match more with
          | c :: last =>
            if isTail c then
              match last with
              | d :: _ => if isTail d then char (assemble (a.toNat % 8) [b, c, d]) 4 else bad 3
              | [] => bad 3
            else bad 2
          | [] => bad 2
        else bad 1
      | [] => bad 1

end Decoded

/-- Decodes with a bound on the number of steps; each step takes at least one byte. -/
def decodeLenient : Nat → List UInt8 → List Char
  | 0, _ => []
  | _, [] => []
  | fuel + 1, b :: bs =>
    match Decoded.front (b :: bs) with
    | .char c n => c :: decodeLenient fuel ((b :: bs).drop n)
    | .bad n => '\uFFFD' :: decodeLenient fuel ((b :: bs).drop n)

def decodeStrict : Nat → List UInt8 → Option (List Char)
  | _, [] => some []
  | 0, _ => none
  | fuel + 1, b :: bs =>
    match Decoded.front (b :: bs) with
    | .char c n => (decodeStrict fuel ((b :: bs).drop n)).map (c :: ·)
    | .bad _ => none

/-- The text of some bytes, with `U+FFFD` for what is not UTF-8. -/
def textOfBytes (bytes : List UInt8) : String :=
  String.ofList (decodeLenient bytes.length bytes)

/-- The text of some bytes that are all UTF-8. -/
def textOfBytes? (bytes : List UInt8) : Option String :=
  (decodeStrict bytes.length bytes).map String.ofList

def notTextMessage : String :=
  "stream did not contain valid UTF-8"

end EditHook
