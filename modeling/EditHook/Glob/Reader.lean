import EditHook.Glob.Piece

/-! Reading a glob, one character at a time. What two stars mean depends on the character before
them, which shows in the last piece, and on the character after them, for which the reader waits.
A backslash is an ordinary character. -/

namespace EditHook

inductive GlobError where
  | unclosedClass
  | invalidRange (lo hi : Char)
  | unopenedGroup
  | unclosedGroup
  deriving DecidableEq, Repr

def GlobError.message : GlobError → String
  | unclosedClass => "unclosed character class; missing ']'"
  | invalidRange lo hi =>
    "invalid range; '" ++ lo.toString ++ "' > '" ++ hi.toString ++ "'"
  | unopenedGroup =>
    "unopened alternate group; missing '\x7b' (maybe escape '\x7d' with '[\x7d]'?)"
  | unclosedGroup =>
    "unclosed alternate group; missing '\x7d' (maybe escape '\x7b' with '[\x7b]'?)"

namespace GlobReader

/-- A brace group whose end has not been met: the pieces before it, last first, and the shapes of
its finished choices, last first. -/
structure OpenGroup where
  outside : List Piece
  choices : List Shape
  deriving DecidableEq, Repr

inductive Mode where
  | plain
  | star
  | doubleStar
  /-- After `[`, where `!` or `^` negates. -/
  | classStart
  /-- Inside a class: the ranges so far, last first, and whether a `-` waits for its end. -/
  | members (negated : Bool) (ranges : List (Char × Char)) (dash : Bool)
  deriving DecidableEq, Repr

structure State where
  mode : Mode
  /-- The pieces of the choice being read, last first. -/
  current : List Piece
  groups : List OpenGroup
  deriving DecidableEq, Repr

def start : State := ⟨.plain, [], []⟩

def State.push (s : State) (p : Piece) : State :=
  { s with mode := .plain, current := p :: s.current }

/-- The finished choices of a group together with the one being read. -/
def withCurrent (choices : List Shape) (current : List Piece) : List Shape :=
  match Piece.sequence current.reverse with
  | some s => s :: choices
  | none => choices

def plainStep (s : State) (c : Char) : Except GlobError State :=
  match c with
  | '?' => .ok (s.push .one)
  | '*' => .ok { s with mode := .star }
  | '[' => .ok { s with mode := .classStart }
  | '{' => .ok ⟨.plain, [], ⟨s.current, []⟩ :: s.groups⟩
  | '}' =>
    match s.groups with
    | [] => .error .unopenedGroup
    | g :: outer =>
      let choices := (withCurrent g.choices s.current).reverse
      .ok ⟨.plain, .group (Piece.choice choices) :: g.outside, outer⟩
  | ',' =>
    match s.groups with
    | [] => .ok (s.push (.literal ','))
    | g :: outer =>
      .ok ⟨.plain, [], { g with choices := withCurrent g.choices s.current } :: outer⟩
  | c => .ok (s.push (.literal c))

/-- What follows two stars. -/
inductive Next where
  | separator
  | choiceEnd
  | textEnd
  | other
  deriving DecidableEq, Repr

def next (s : State) (c : Char) : Next :=
  if c = '/' then .separator
  else if (c = ',' || c = '}') && !s.groups.isEmpty then .choiceEnd
  else .other

/-- The pieces after two stars that fill a whole path component, with the separator after them;
`none` when they do not fill one. Neighbouring such components merge into one piece. -/
def wholeComponent? : List Piece → Next → Option (List Piece)
  | [], .separator => some [.leading]
  | [], .textEnd => some [.leading]
  | [], _ => none
  | p :: ps, n =>
    if !p.endsAtSeparator then none
    else
      match n with
      | .other => none
      | .separator => some ((if p = .leading then .leading else .between) :: ps)
      | _ => some ((if p = .leading then .leading else .trailing) :: ps)

/-- Two stars that do not fill a component are two single stars. -/
def twoStars (s : State) : State := (s.push .star).push .star

def doubleStarStep (s : State) (c : Char) : Except GlobError State :=
  match wholeComponent? s.current (next s c) with
  | none => plainStep (twoStars s) c
  | some pieces =>
    let s' : State := ⟨.plain, pieces, s.groups⟩
    if c = '/' then .ok s' else plainStep s' c

/-- Gives the last range a new upper end. -/
def extendLast (ranges : List (Char × Char)) (hi : Char) :
    Except GlobError (List (Char × Char)) :=
  match ranges with
  | [] => .ok []
  | (lo, _) :: rest => if hi < lo then .error (.invalidRange lo hi) else .ok ((lo, hi) :: rest)

def memberStep (s : State) (negated : Bool) (ranges : List (Char × Char)) (dash : Bool)
    (c : Char) : Except GlobError State :=
  if ranges.isEmpty then .ok { s with mode := .members negated [(c, c)] false }
  else if c = ']' then
    let all := if dash then ('-', '-') :: ranges else ranges
    .ok (s.push (.charSet negated all.reverse))
  else if dash then do
    let extended ← extendLast ranges c
    .ok { s with mode := .members negated extended false }
  else if c = '-' then .ok { s with mode := .members negated ranges true }
  else .ok { s with mode := .members negated ((c, c) :: ranges) false }

def step (s : State) (c : Char) : Except GlobError State :=
  match s.mode with
  | .plain => plainStep s c
  | .star => if c = '*' then .ok { s with mode := .doubleStar } else plainStep (s.push .star) c
  | .doubleStar => doubleStarStep s c
  | .classStart =>
    if c = '!' || c = '^' then .ok { s with mode := .members true [] false }
    else memberStep s false [] false c
  | .members negated ranges dash => memberStep s negated ranges dash c

/-- The pieces of the whole text, once its end is met. -/
def finish (s : State) : Except GlobError (List Piece) :=
  match s.mode with
  | .classStart => .error .unclosedClass
  | .members .. => .error .unclosedClass
  | _ =>
    if !s.groups.isEmpty then .error .unclosedGroup
    else
      match s.mode with
      | .star => .ok (Piece.star :: s.current).reverse
      | .doubleStar =>
        .ok ((wholeComponent? s.current .textEnd).getD (twoStars s).current).reverse
      | _ => .ok s.current.reverse

def run (s : State) (cs : List Char) : Except GlobError State :=
  cs.foldlM step s

end GlobReader

end EditHook
