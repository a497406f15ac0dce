import EditHook.Document.Basic
import EditHook.Document.Token

/-! From tokens to the node tree. The builder keeps one open node for each block it is inside, so
it takes the tokens one by one whatever the depth. A node whose mark discards it is complete as
soon as a token cannot continue it; any other node needs a newline, a semicolon, or the end of its
block or of the text. -/

namespace EditHook

namespace Builder

/-- How far a type in parentheses has been read. It is read and dropped. -/
inductive Typing where
  | opened
  | named
  | closed
  deriving DecidableEq, Repr

/-- Where the reading of a node stands. -/
inductive Phase where
  /-- After the name or an entry, with space after it or not. -/
  | entries (spaced : Bool)
  /-- After text that a sign of equality would make the key of a property. -/
  | text (s : String) (dropped spaced : Bool)
  /-- Inside or after a type, before the value it belongs to. -/
  | typing (key : Option String) (dropped : Bool) (t : Typing)
  /-- After a sign of equality. -/
  | assigned (key : String) (dropped : Bool)
  /-- After a mark that discards an entry or a block. -/
  | discarding
  /-- After a discarded block, where no entries may follow. -/
  | blocks (spaced : Bool)
  /-- After a mark that discards a block, where no entry may follow. -/
  | discardingBlock
  deriving DecidableEq, Repr

/-- A node that is being read. -/
structure Draft where
  start : Nat
  name : String
  /-- The entries so far, last first. -/
  entries : List Entry
  children : Option (List Node)
  dropped : Bool

def Draft.node (d : Draft) : Node :=
  ⟨d.start, d.name, d.entries.reverse, d.children⟩

def Draft.add (d : Draft) (dropped : Bool) (e : Entry) : Draft :=
  if dropped then d else { d with entries := e :: d.entries }

inductive Mode where
  /-- Between nodes; the flag says that a mark discards the next one. -/
  | between (dropped : Bool)
  /-- Inside or after the type of a node, before its name. -/
  | naming (dropped : Bool) (start : Nat) (t : Typing)
  | inside (d : Draft) (p : Phase)

/-- A node whose block is being read: the node, whether the block is discarded, and the nodes
before it, last first. -/
structure OpenNode where
  draft : Draft
  dropped : Bool
  earlier : List Node

structure State where
  mode : Mode
  /-- The nodes of the innermost block so far, last first. -/
  nodes : List Node
  opened : List OpenNode

def State.enter (s : State) (m : Mode) : State := { s with mode := m }

def State.complete (s : State) (d : Draft) : State :=
  { s with
    mode := .between false
    nodes := if d.dropped then s.nodes else d.node :: s.nodes }

def State.openBlock (s : State) (d : Draft) (dropped : Bool) : State :=
  ⟨.between false, [], ⟨d, dropped, s.nodes⟩ :: s.opened⟩

def State.closeBlock? (s : State) : Option State :=
  match s.opened with
  | [] => none
  | o :: outer =>
    let d := if o.dropped then o.draft else { o.draft with children := some s.nodes.reverse }
    some ⟨.inside d (.blocks (!o.dropped)), o.earlier, outer⟩

def Typing.step? : Typing → Token → Option Typing
  | t, .space => some t
  | .opened, .text _ => some .named
  | .named, .typeEnd => some .closed
  | _, _ => none

def betweenStep (s : State) (dropped : Bool) (t : PlacedToken) : Option State :=
  match t.token with
  | .space => some s
  | .newline => some s
  | .discard => if dropped then none else some (s.enter (.between true))
  | .typeStart => some (s.enter (.naming dropped t.start .opened))
  | .text name => some (s.enter (.inside ⟨t.start, name, [], none, dropped⟩ (.entries false)))
  | .blockEnd => if dropped then none else s.closeBlock?
  | _ => none

def leaveStep (s : State) (d : Draft) (t : PlacedToken) : Option State :=
  match t.token with
  | .newline => some (s.complete d)
  | .semicolon => if d.dropped then none else some (s.complete d)
  | .blockEnd => (s.complete d).closeBlock?
  | _ => if d.dropped then betweenStep (s.complete d) false t else none

def entriesStep (s : State) (d : Draft) (spaced : Bool) (t : PlacedToken) : Option State :=
  match t.token with
  | .space => some (s.enter (.inside d (.entries true)))
  | .blockStart => some (s.openBlock d false)
  | .text v => if spaced then some (s.enter (.inside d (.text v false false))) else leaveStep s d t
  | .scalar w =>
    if spaced then some (s.enter (.inside (d.add false ⟨none, .scalar w⟩) (.entries false)))
    else leaveStep s d t
  | .typeStart =>
    if spaced then some (s.enter (.inside d (.typing none false .opened))) else leaveStep s d t
  | .discard => if spaced then some (s.enter (.inside d .discarding)) else leaveStep s d t
  | _ => leaveStep s d t

def typingStep (s : State) (d : Draft) (key : Option String) (dropped : Bool) (ty : Typing)
    (t : Token) : Option State :=
  match ty, t with
  | .closed, .text v =>
    some (s.enter (.inside (d.add dropped ⟨key, .text v⟩) (.entries false)))
  | .closed, .scalar w =>
    some (s.enter (.inside (d.add dropped ⟨key, .scalar w⟩) (.entries false)))
  | _, _ => (ty.step? t).map (fun ty => s.enter (.inside d (.typing key dropped ty)))

def assignedStep (s : State) (d : Draft) (key : String) (dropped : Bool) (t : Token) :
    Option State :=
  match t with
  | .space => some s
  | .typeStart => some (s.enter (.inside d (.typing (some key) dropped .opened)))
  | .text v => some (s.enter (.inside (d.add dropped ⟨some key, .text v⟩) (.entries false)))
  | .scalar w => some (s.enter (.inside (d.add dropped ⟨some key, .scalar w⟩) (.entries false)))
  | _ => none

def discardingStep (s : State) (d : Draft) (t : Token) : Option State :=
  match t with
  | .space => some s
  | .newline => some s
  | .blockStart => some (s.openBlock d true)
  | .typeStart => some (s.enter (.inside d (.typing none true .opened)))
  | .text v => some (s.enter (.inside d (.text v true false)))
  | .scalar _ => some (s.enter (.inside d (.entries false)))
  | _ => none

/-- After a block. Discarded blocks may stand before and after the one that counts. -/
def blocksStep (s : State) (d : Draft) (spaced : Bool) (t : PlacedToken) : Option State :=
  match t.token with
  | .space => some (s.enter (.inside d (.blocks true)))
  | .blockStart => if d.children.isSome then leaveStep s d t else some (s.openBlock d false)
  | .discard => if spaced then some (s.enter (.inside d .discardingBlock)) else leaveStep s d t
  | _ => leaveStep s d t

def insideStep (s : State) (d : Draft) (p : Phase) (t : PlacedToken) : Option State :=
  match p with
  | .entries spaced => entriesStep s d spaced t
  | .text v dropped spaced =>
    match t.token with
    | .equals => some (s.enter (.inside d (.assigned v dropped)))
    | .space => some (s.enter (.inside d (.text v dropped true)))
    | _ => entriesStep s (d.add dropped ⟨none, .text v⟩) spaced t
  | .typing key dropped ty => typingStep s d key dropped ty t.token
  | .assigned key dropped => assignedStep s d key dropped t.token
  | .discarding => discardingStep s d t.token
  | .blocks spaced => blocksStep s d spaced t
  | .discardingBlock =>
    match t.token with
    | .space => some s
    | .newline => some s
    | .blockStart => some (s.openBlock d true)
    | _ => none

def namingStep (s : State) (dropped : Bool) (start : Nat) (ty : Typing) (t : Token) :
    Option State :=
  match ty, t with
  | .closed, .text name =>
    some (s.enter (.inside ⟨start, name, [], none, dropped⟩ (.entries false)))
  | _, _ => (ty.step? t).map (fun ty => s.enter (.naming dropped start ty))

def step (s : State) (t : PlacedToken) : Option State :=
  match s.mode with
  | .between dropped => betweenStep s dropped t
  | .naming dropped start ty => namingStep s dropped start ty t.token
  | .inside d p => insideStep s d p t

def start : State := ⟨.between false, [], []⟩

def run (s : State) (ts : List PlacedToken) : Option State :=
  ts.foldlM step s

/-- The nodes, once the tokens are used up: the end of the text ends a node as a newline does. -/
def finish (s : State) : Option (List Node) :=
  match s.opened, s.mode with
  | [], .between false => some s.nodes.reverse
  | [], .inside .. => (step s ⟨.newline, 0⟩).bind (fun s => match s.mode with
    | .between false => some s.nodes.reverse
    | _ => none)
  | _, _ => none

end Builder

end EditHook
