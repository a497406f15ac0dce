import EditHook.Document.Builder
import EditHook.Proofs.Scanning

/-! Building nodes behind others. The builder looks neither at the nodes that are complete nor at
where its tokens start, so a document that follows another one is built as if it stood alone, with its
nodes further back in the text. -/

namespace EditHook

namespace Node

mutual

def moved (offset : Nat) : Node → Node
  | ⟨start, name, entries, block⟩ => ⟨start + offset, name, entries, movedBlock offset block⟩

def movedBlock (offset : Nat) : Option (List Node) → Option (List Node)
  | none => none
  | some nodes => some (movedAll offset nodes)

def movedAll (offset : Nat) : List Node → List Node
  | [] => []
  | n :: ns => n.moved offset :: movedAll offset ns

end

theorem movedAll_eq_map (offset : Nat) (nodes : List Node) :
    movedAll offset nodes = nodes.map (moved offset) := by
  induction nodes with
  | nil => simp [movedAll]
  | cons n ns ih => simp [movedAll, ih]

theorem moved_eq (offset : Nat) (n : Node) :
    n.moved offset =
      ⟨n.start + offset, n.name, n.entries, n.children.map (List.map (moved offset))⟩ := by
  obtain ⟨start, name, entries, block⟩ := n
  cases block with
  | none => simp [moved, movedBlock]
  | some nodes => simp [moved, movedBlock, movedAll_eq_map]

end Node

namespace Builder

def Draft.moved (offset : Nat) (d : Draft) : Draft :=
  { d with
    start := d.start + offset
    children := d.children.map (List.map (Node.moved offset)) }

def Mode.moved (offset : Nat) : Mode → Mode
  | .between dropped => .between dropped
  | .naming dropped start t => .naming dropped (start + offset) t
  | .inside d p => .inside (d.moved offset) p

def OpenNode.moved (offset : Nat) (o : OpenNode) : OpenNode :=
  ⟨o.draft.moved offset, o.dropped, o.earlier.map (Node.moved offset)⟩

/-- The nodes of a block and the nodes that are open around it, with earlier ones before them all. -/
def behind (earlier : List Node) : List Node → List OpenNode → List Node × List OpenNode
  | nodes, [] => (nodes ++ earlier, [])
  | nodes, o :: outer =>
    let below := behind earlier o.earlier outer
    (nodes, { o with earlier := below.1 } :: below.2)

/-- The same state some bytes later in a text, with other nodes before its own. -/
def State.moved (s : State) (offset : Nat) (earlier : List Node) : State :=
  let all := behind earlier (s.nodes.map (Node.moved offset)) (s.opened.map (OpenNode.moved offset))
  ⟨s.mode.moved offset, all.1, all.2⟩

theorem behind_cons (earlier nodes : List Node) (n : Node) (opened : List OpenNode) :
    behind earlier (n :: nodes) opened =
      (n :: (behind earlier nodes opened).1, (behind earlier nodes opened).2) := by
  cases opened <;> rfl

theorem Draft.node_moved (d : Draft) (offset : Nat) :
    (d.moved offset).node = d.node.moved offset := by
  rw [Node.moved_eq]
  rfl

theorem Draft.add_moved (d : Draft) (offset : Nat) (dropped : Bool) (e : Entry) :
    (d.moved offset).add dropped e = (d.add dropped e).moved offset := by
  cases dropped <;> rfl

section

variable (s : State) (offset : Nat) (earlier : List Node) (d : Draft) (t : PlacedToken)

theorem complete_moved :
    (s.moved offset earlier).complete (d.moved offset) = (s.complete d).moved offset earlier := by
  have hd : (d.moved offset).dropped = d.dropped := rfl
  by_cases h : d.dropped = true
  · simp only [State.complete, hd, h, if_true]
    rfl
  · simp only [State.complete, hd, h, if_false, State.moved, List.map_cons, behind_cons,
      Draft.node_moved, Bool.false_eq_true]
    rfl

theorem closeBlock?_moved :
    (s.moved offset earlier).closeBlock? = s.closeBlock?.map (·.moved offset earlier) := by
  obtain ⟨mode, nodes, opened⟩ := s
  cases opened with
  | nil => rfl
  | cons o outer =>
    obtain ⟨draft, dropped, before⟩ := o
    cases dropped with
    | true => rfl
    | false =>
      have hr : (nodes.map (Node.moved offset)).reverse = nodes.reverse.map (Node.moved offset) :=
        List.map_reverse.symm
      simp only [State.closeBlock?, State.moved, List.map_cons, behind, OpenNode.moved,
        Option.map_some, Mode.moved, Draft.moved, Bool.false_eq_true, if_false, hr]

theorem betweenStep_moved (dropped : Bool) :
    betweenStep (s.moved offset earlier) dropped (t.moved offset) =
      (betweenStep s dropped t).map (·.moved offset earlier) := by
  obtain ⟨token, start⟩ := t
  cases token with
  | blockEnd =>
    cases dropped with
    | true => rfl
    | false => exact closeBlock?_moved s offset earlier
  | discard => cases dropped <;> rfl
  | _ => rfl

theorem leaveStep_moved :
    leaveStep (s.moved offset earlier) (d.moved offset) (t.moved offset) =
      (leaveStep s d t).map (·.moved offset earlier) := by
  have hd : (d.moved offset).dropped = d.dropped := rfl
  have hnext : betweenStep ((s.moved offset earlier).complete (d.moved offset)) false
      (t.moved offset) =
        (betweenStep (s.complete d) false t).map (·.moved offset earlier) := by
    rw [complete_moved]
    exact betweenStep_moved (s.complete d) offset earlier t false
  obtain ⟨token, start⟩ := t
  cases token with
  | newline => exact congrArg some (complete_moved s offset earlier d)
  | semicolon =>
    simp only [leaveStep, PlacedToken.moved, hd]
    by_cases h : d.dropped = true
    · simp [h]
    · simp [h, complete_moved]
  | blockEnd =>
    simp only [leaveStep, PlacedToken.moved, complete_moved]
    exact closeBlock?_moved (s.complete d) offset earlier
  | _ =>
    simp only [leaveStep, PlacedToken.moved, hd] at hnext ⊢
    by_cases h : d.dropped = true
    · simp only [h, if_true]
      exact hnext
    · simp [h]

theorem entriesStep_moved (spaced : Bool) :
    entriesStep (s.moved offset earlier) (d.moved offset) spaced (t.moved offset) =
      (entriesStep s d spaced t).map (·.moved offset earlier) := by
  have hleave := leaveStep_moved s offset earlier d t
  obtain ⟨token, start⟩ := t
  cases spaced with
  | true =>
    cases token with
    | scalar w =>
      simp only [entriesStep, PlacedToken.moved, if_true, Draft.add_moved]
      rfl
    | space => rfl
    | blockStart => rfl
    | text v => rfl
    | typeStart => rfl
    | discard => rfl
    | _ => exact hleave
  | false =>
    cases token with
    | space => rfl
    | blockStart => rfl
    | _ => exact hleave

theorem typingStep_moved (key : Option String) (dropped : Bool) (ty : Typing) (t : Token) :
    typingStep (s.moved offset earlier) (d.moved offset) key dropped ty t =
      (typingStep s d key dropped ty t).map (·.moved offset earlier) := by
  unfold typingStep
  split
  · rw [Draft.add_moved]
    rfl
  · rw [Draft.add_moved]
    rfl
  · cases ty.step? t <;> rfl

theorem assignedStep_moved (key : String) (dropped : Bool) (t : Token) :
    assignedStep (s.moved offset earlier) (d.moved offset) key dropped t =
      (assignedStep s d key dropped t).map (·.moved offset earlier) := by
  cases t with
  | text v =>
    simp only [assignedStep, Draft.add_moved]
    rfl
  | scalar w =>
    simp only [assignedStep, Draft.add_moved]
    rfl
  | _ => rfl

theorem discardingStep_moved (t : Token) :
    discardingStep (s.moved offset earlier) (d.moved offset) t =
      (discardingStep s d t).map (·.moved offset earlier) := by
  cases t <;> rfl

theorem blocksStep_moved (spaced : Bool) :
    blocksStep (s.moved offset earlier) (d.moved offset) spaced (t.moved offset) =
      (blocksStep s d spaced t).map (·.moved offset earlier) := by
  have hleave := leaveStep_moved s offset earlier d t
  have hchildren : (d.moved offset).children.isSome = d.children.isSome := by
    simp [Draft.moved]
  obtain ⟨token, start⟩ := t
  cases token with
  | space => rfl
  | blockStart =>
    simp only [blocksStep, PlacedToken.moved, hchildren] at hleave ⊢
    by_cases h : d.children.isSome = true
    · simp only [h, if_true]
      exact hleave
    · simp only [h, Bool.false_eq_true, if_false]
      rfl
  | discard =>
    cases spaced with
    | true => rfl
    | false => exact hleave
  | _ => exact hleave

theorem insideStep_moved (p : Phase) :
    insideStep (s.moved offset earlier) (d.moved offset) p (t.moved offset) =
      (insideStep s d p t).map (·.moved offset earlier) := by
  cases p with
  | entries spaced => exact entriesStep_moved s offset earlier d t spaced
  | text v dropped spaced =>
    have hentry := entriesStep_moved s offset earlier (d.add dropped ⟨none, .text v⟩) t spaced
    rw [← Draft.add_moved] at hentry
    obtain ⟨token, start⟩ := t
    cases token with
    | equals => rfl
    | space => rfl
    | _ => exact hentry
  | typing key dropped ty => exact typingStep_moved s offset earlier d key dropped ty t.token
  | assigned key dropped => exact assignedStep_moved s offset earlier d key dropped t.token
  | discarding => exact discardingStep_moved s offset earlier d t.token
  | blocks spaced => exact blocksStep_moved s offset earlier d t spaced
  | discardingBlock =>
    obtain ⟨token, start⟩ := t
    cases token <;> rfl

theorem namingStep_moved (dropped : Bool) (start : Nat) (ty : Typing) (t : Token) :
    namingStep (s.moved offset earlier) dropped (start + offset) ty t =
      (namingStep s dropped start ty t).map (·.moved offset earlier) := by
  unfold namingStep
  split
  · rfl
  · cases ty.step? t <;> rfl

theorem step_moved :
    step (s.moved offset earlier) (t.moved offset) = (step s t).map (·.moved offset earlier) := by
  have hm : (s.moved offset earlier).mode = s.mode.moved offset := rfl
  unfold step
  rw [hm]
  cases s.mode with
  | between dropped => exact betweenStep_moved s offset earlier t dropped
  | naming dropped start ty => exact namingStep_moved s offset earlier dropped start ty t.token
  | inside d p => exact insideStep_moved s offset earlier d t p

theorem run_moved (ts : List PlacedToken) :
    run (s.moved offset earlier) (ts.map (·.moved offset)) =
      (run s ts).map (·.moved offset earlier) := by
  induction ts generalizing s with
  | nil => rfl
  | cons t ts ih =>
    simp only [run, List.map_cons, List.foldlM_cons] at ih ⊢
    rw [step_moved]
    cases step s t with
    | none => rfl
    | some next => exact ih next

end

theorem run_append (s : State) (ts us : List PlacedToken) :
    run s (ts ++ us) = (run s ts).bind (run · us) := by
  simp [run, List.foldlM_append, bind]

def Phase.ended? (d : Draft) : Phase → Option Draft
  | .entries _ => some d
  | .text v dropped _ => some (d.add dropped ⟨none, .text v⟩)
  | .blocks _ => some d
  | _ => none

section

variable {s : State} {d d' : Draft} {p : Phase}

theorem Phase.ended?_moved (d : Draft) (p : Phase) (offset : Nat) :
    p.ended? (d.moved offset) = (p.ended? d).map (Draft.moved offset) := by
  cases p with
  | text v dropped spaced => exact congrArg some (Draft.add_moved d offset dropped _)
  | _ => rfl

theorem insideStep_newline (h : p.ended? d = some d') (place : Nat) :
    insideStep s d p ⟨.newline, place⟩ = some (s.complete d') := by
  cases p <;> cases h <;> rfl

theorem insideStep_space (h : p.ended? d = some d') (place : Nat) :
    ∃ q, insideStep s d p ⟨.space, place⟩ = some (s.enter (.inside d q)) ∧ q.ended? d = some d' := by
  cases p with
  | entries spaced => exact ⟨.entries true, rfl, h⟩
  | text v dropped spaced => exact ⟨.text v dropped true, rfl, h⟩
  | blocks spaced => exact ⟨.blocks true, rfl, h⟩
  | _ => cases h

theorem finish_inside (ho : s.opened = []) (hm : s.mode = .inside d p) :
    finish s = (p.ended? d).map fun d => (s.complete d).nodes.reverse := by
  obtain ⟨mode, nodes, opened⟩ := s
  obtain rfl : mode = .inside d p := hm
  obtain rfl : opened = [] := ho
  cases p with
  | typing key dropped ty => cases ty <;> rfl
  | _ => rfl

theorem finish_eq_some {nodes : List Node} (h : finish s = some nodes) :
    s.opened = [] ∧ ((s.mode = .between false ∧ s.nodes.reverse = nodes) ∨
      ∃ d p d', s.mode = .inside d p ∧ p.ended? d = some d' ∧
        (s.complete d').nodes.reverse = nodes) := by
  obtain ⟨mode, before, opened⟩ := s
  cases opened with
  | cons o outer =>
    cases mode with
    | between dropped => cases dropped <;> cases h
    | _ => cases h
  | nil =>
    refine ⟨rfl, ?_⟩
    cases mode with
    | between dropped =>
      cases dropped with
      | true => cases h
      | false => exact .inl ⟨rfl, Option.some.inj h⟩
    | naming dropped start ty => cases h
    | inside d p =>
      rw [finish_inside rfl rfl] at h
      obtain ⟨d', hd, hn⟩ := Option.map_eq_some_iff.mp h
      exact .inr ⟨d, p, d', rfl, hd, hn⟩

theorem nodes_moved (ho : s.opened = []) (offset : Nat) (earlier : List Node) :
    (s.moved offset earlier).nodes = s.nodes.map (Node.moved offset) ++ earlier := by
  rw [State.moved, ho]
  rfl

theorem finish_moved (s : State) (offset : Nat) (earlier : List Node) :
    finish (s.moved offset earlier) =
      (finish s).map fun nodes => earlier.reverse ++ nodes.map (Node.moved offset) := by
  have hnodes {s : State} (ho : s.opened = []) : (s.moved offset earlier).nodes.reverse =
      earlier.reverse ++ s.nodes.reverse.map (Node.moved offset) := by
    rw [nodes_moved ho, List.reverse_append, List.map_reverse]
  obtain ⟨mode, before, opened⟩ := s
  cases opened with
  | cons o outer =>
    cases mode with
    | between dropped => cases dropped <;> rfl
    | _ => rfl
  | nil =>
    cases mode with
    | between dropped =>
      cases dropped with
      | true => rfl
      | false => exact congrArg some (hnodes (s := ⟨.between false, before, []⟩) rfl)
    | naming dropped start ty => rfl
    | inside d p =>
      let s : State := ⟨.inside d p, before, []⟩
      have hs : finish (s.moved offset earlier) = _ :=
        finish_inside (d := d.moved offset) (p := p) rfl rfl
      have hd (d : Draft) : ((s.moved offset earlier).complete (d.moved offset)).nodes.reverse =
          earlier.reverse ++ (s.complete d).nodes.reverse.map (Node.moved offset) := by
        rw [complete_moved]
        exact hnodes rfl
      rw [hs, finish_inside rfl rfl, Phase.ended?_moved, Option.map_map, Option.map_map]
      exact congrFun (congrArg Option.map (funext hd)) _

/-- Where a text may end, a newline leaves nothing open. -/
theorem step_newline {nodes : List Node} (h : finish s = some nodes) (place : Nat) :
    step s ⟨.newline, place⟩ = some ⟨.between false, nodes.reverse, []⟩ := by
  obtain ⟨ho, ⟨hm, rfl⟩ | ⟨d, p, d', hm, hd, rfl⟩⟩ := finish_eq_some h
  · obtain ⟨mode, before, opened⟩ := s
    obtain rfl : mode = .between false := hm
    obtain rfl : opened = [] := ho
    simp [step, betweenStep]
  -- a node that may end here is complete with the newline
  · obtain ⟨mode, before, opened⟩ := s
    obtain rfl : mode = .inside d p := hm
    obtain rfl : opened = [] := ho
    have hn := insideStep_newline (s := ⟨.inside d p, before, []⟩) hd place
    simpa [step, State.complete] using hn

def IsBlank (t : PlacedToken) : Prop :=
  t.token = .space ∨ t.token = .newline

theorem step_blank {nodes : List Node} (h : finish s = some nodes) {t : PlacedToken}
    (ht : IsBlank t) : ∃ next, step s t = some next ∧ finish next = some nodes := by
  obtain ⟨token, place⟩ := t
  obtain rfl | rfl : token = .space ∨ token = .newline := ht
  · obtain ⟨ho, ⟨hm, -⟩ | ⟨d, p, d', hm, hd, rfl⟩⟩ := finish_eq_some h
    · exact ⟨s, by simp [step, hm, betweenStep], h⟩
    · obtain ⟨q, hq, hd⟩ := insideStep_space (s := s) hd place
      refine ⟨s.enter (.inside d q), by simpa only [step, hm] using hq, ?_⟩
      rw [finish_inside (s := s.enter (.inside d q)) ho rfl, hd]
      rfl
  · exact ⟨_, step_newline h place, by simp [finish]⟩

theorem run_blanks {nodes : List Node} (h : finish s = some nodes) {blanks : List PlacedToken}
    (hb : ∀ t ∈ blanks, IsBlank t) (place : Nat) :
    run s (blanks ++ [⟨.newline, place⟩]) = some ⟨.between false, nodes.reverse, []⟩ := by
  induction blanks generalizing s with
  | nil => simp [run, step_newline h]
  | cons t blanks ih =>
    obtain ⟨ht, hb⟩ := List.forall_mem_cons.mp hb
    obtain ⟨next, hs, hf⟩ := step_blank h ht
    have hr := ih hf hb
    simp only [run, List.cons_append, List.foldlM_cons, hs] at hr ⊢
    exact hr

/-- A document behind another one and an empty line. -/
theorem finish_run_behind {ts blanks us : List PlacedToken} {nodes : List Node}
    (h : (run start ts).bind finish = some nodes) (hb : ∀ t ∈ blanks, IsBlank t)
    (place offset : Nat) :
    (run start (ts ++ (blanks ++ [⟨.newline, place⟩]) ++ us.map (·.moved offset))).bind finish =
      ((run start us).bind finish).map fun more => nodes ++ more.map (Node.moved offset) := by
  obtain ⟨s, hs, hn⟩ := Option.bind_eq_some_iff.mp h
  -- behind the blanks the state is the first one, but for the nodes that are there already
  have hstart : (⟨.between false, nodes.reverse, []⟩ : State) = start.moved offset nodes.reverse := rfl
  have hrun : run start (ts ++ (blanks ++ [⟨.newline, place⟩]) ++ us.map (·.moved offset)) =
      (run start us).map (·.moved offset nodes.reverse) := by
    rw [run_append, run_append, hs, Option.bind_some, run_blanks hn hb, hstart, Option.bind_some,
      run_moved]
  rw [hrun, Option.bind_map, Option.map_bind]
  refine congrArg _ (funext fun s => ?_)
  simpa using finish_moved s offset nodes.reverse

end

end Builder

end EditHook
