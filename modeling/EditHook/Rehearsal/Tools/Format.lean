import EditHook.Text.Utf8

/-! Formats with escapes and directives, and echoed texts with escapes, for the programs of a
rehearsal. Output is bytes, because an escape may stand for any byte. -/

namespace EditHook

namespace Format

def octalValue? (c : Char) : Option Nat :=
  if '0' ≤ c && c ≤ '7' then some (c.toNat - '0'.toNat) else none

/-- The byte of up to `limit` octal digits. -/
def octal (limit : Nat) (cs : List Char) : UInt8 × List Char :=
  let digits := (cs.take limit).takeWhile (fun c => (octalValue? c).isSome)
  (UInt8.ofNat (digits.foldl (fun n c => n * 8 + (octalValue? c).getD 0) 0),
    cs.drop digits.length)

/-- What an escape stands for; `none` where it ends all output. A number may have to start with a
zero that does not count. -/
def escape (leadingZero : Bool) : List Char → Option (List UInt8) × List Char
  | [] => (some [0x5C], [])
  | c :: rest =>
    if c = 'c' then (none, rest)
    else if leadingZero && c = '0' then
      let (b, rest) := octal 3 rest
      (some [b], rest)
    else if !leadingZero && (octalValue? c).isSome then
      let (b, rest) := octal 3 (c :: rest)
      (some [b], rest)
    else
      match [('a', 0x07), ('b', 0x08), ('e', 0x1B), ('f', 0x0C), ('n', 0x0A), ('r', 0x0D),
        ('t', 0x09), ('v', 0x0B), ('\\', 0x5C)].lookup c with
      | some b => (some [b], rest)
      | none =>
        if !leadingZero && c = '"' then (some [0x22], rest)
        else (some (0x5C :: String.utf8EncodeChar c), rest)

/-- A text with its escapes replaced, and whether all of it is to be put out. -/
def unescaped : Nat → List Char → List UInt8 × Bool
  | 0, _ => ([], true)
  | _ + 1, [] => ([], true)
  | fuel + 1, c :: rest =>
    if c = '\\' then
      match escape true rest with
      | (some bytes, rest) =>
        let more := unescaped fuel rest
        (bytes ++ more.1, more.2)
      | (none, _) => ([], false)
    else
      let more := unescaped fuel rest
      (String.utf8EncodeChar c ++ more.1, more.2)

/-- What `echo` puts out. -/
def echoed (escapes newline : Bool) (texts : List String) : List UInt8 :=
  let text := " ".intercalate texts
  let (bytes, whole) :=
    if escapes then unescaped (text.length + 1) text.toList else (utf8 text, true)
  bytes ++ (if newline && whole then [0x0A] else [])

/-- A directive: its flags, width, precision and letter. -/
structure Directive where
  flags : List Char
  width : Nat
  precision : Option Nat
  letter : Char

def number (cs : List Char) : Nat :=
  ((String.ofList cs).toNat?).getD 0

/-- The directive behind a percent sign. -/
def directive? (cs : List Char) : Option (Directive × List Char) :=
  let isFlag := fun c => ['-', '+', ' ', '0', '#'].contains c
  let flags := cs.takeWhile isFlag
  let cs := cs.dropWhile isFlag
  let width := cs.takeWhile Char.isDigit
  let cs := cs.dropWhile Char.isDigit
  let (precision, cs) :=
    match cs with
    | '.' :: rest => (some (number (rest.takeWhile Char.isDigit)), rest.dropWhile Char.isDigit)
    | _ => (none, cs)
  match cs with
  | c :: rest => some (⟨flags, number width, precision, c⟩, rest)
  | [] => none

def padded (d : Directive) (bytes : List UInt8) : List UInt8 :=
  let fill := List.replicate (d.width - bytes.length) (0x20 : UInt8)
  if d.flags.contains '-' then bytes ++ fill else fill ++ bytes

/-- The integer that an argument spells, if it spells one. -/
def integer? (s : String) : Option Int :=
  match s.toList with
  | [] => some 0
  | '\x27' :: c :: _ => some c.toNat
  | '"' :: c :: _ => some c.toNat
  | '+' :: rest => (String.ofList rest).toInt?
  | _ => s.toInt?

def digitsOf (letter : Char) (n : Int) : List Char :=
  let m := n.toNat
  if letter = 'x' then Nat.toDigits 16 m
  else if letter = 'X' then (Nat.toDigits 16 m).map Char.toUpper
  else if letter = 'o' then Nat.toDigits 8 m
  else Nat.toDigits 10 n.natAbs

def shownInteger (d : Directive) (n : Int) : List UInt8 :=
  let digits := digitsOf d.letter n
  let digits := List.replicate (d.precision.getD 0 - digits.length) '0' ++ digits
  let sign :=
    if n < 0 then ['-'] else if d.flags.contains '+' then ['+']
    else if d.flags.contains ' ' then [' '] else []
  let zeros :=
    if d.flags.contains '0' && !d.flags.contains '-' && d.precision.isNone then
      List.replicate (d.width - digits.length - sign.length) '0'
    else []
  padded d (utf8 (String.ofList (sign ++ zeros ++ digits)))

/-- What a format came to so far. -/
structure Outcome where
  bytes : List UInt8
  /-- The arguments that were no numbers where one was needed. -/
  bad : List String
  rest : List String
  stopped : Bool

/-- Puts out a directive for an argument, where a missing one is empty. -/
def shown (d : Directive) (argument : String) : List UInt8 × List String × Bool :=
  if d.letter = 's' then
    let bytes := utf8 argument
    (padded d (match d.precision with | some n => bytes.take n | none => bytes), [], false)
  else if d.letter = 'c' then (padded d ((utf8 argument).take 1), [], false)
  else if d.letter = 'b' then
    let (bytes, whole) := unescaped (argument.length + 1) argument.toList
    (padded d bytes, [], !whole)
  else
    match integer? argument with
    | some n => (shownInteger d n, [], false)
    | none => (shownInteger d 0, [argument], false)

def pass : Nat → List Char → List String → Outcome
  | 0, _, as => ⟨[], [], as, false⟩
  | _ + 1, [], as => ⟨[], [], as, false⟩
  | fuel + 1, c :: rest, as =>
    let after := fun (bytes : List UInt8) (bad : List String) (more : Outcome) =>
      { more with bytes := bytes ++ more.bytes, bad := bad ++ more.bad }
    if c = '\\' then
      match escape false rest with
      | (some bytes, rest) => after bytes [] (pass fuel rest as)
      | (none, _) => ⟨[], [], as, true⟩
    else if c = '%' then
      match rest with
      | '%' :: rest => after [0x25] [] (pass fuel rest as)
      | _ =>
        match directive? rest with
        | some (d, rest) =>
          let (bytes, bad, stop) := shown d (as.headD "")
          if stop then ⟨bytes, bad, as.drop 1, true⟩
          else after bytes bad (pass fuel rest (as.drop 1))
        | none => after [0x25] [] (pass fuel rest as)
    else after (String.utf8EncodeChar c) [] (pass fuel rest as)

/-- Passes through a format as long as there are arguments and each pass takes some. -/
def printed : Nat → String → List String → List UInt8 × List String
  | 0, _, _ => ([], [])
  | fuel + 1, format, as =>
    let o := pass (format.length + 1) format.toList as
    if o.stopped || o.rest.isEmpty || o.rest.length = as.length then (o.bytes, o.bad)
    else
      let more := printed fuel format o.rest
      (o.bytes ++ more.1, o.bad ++ more.2)

end Format

end EditHook
