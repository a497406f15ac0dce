import EditHook.Document.Reader
import EditHook.Proofs.Building

/-! Where tokens and nodes start: at characters of the text, in the order of the text. What a step adds
to the places in a state is at most the place of the character or token that it takes. -/

namespace EditHook

namespace Scanner

def offsets : Nat → List Char → List Nat
  | _, [] => []
  | here, c :: cs => here :: offsets (here + c.utf8Size) cs

def Mode.reading : Mode → Bool
  | .ground => false
  | .hiddenReturn => false
  | _ => true

def State.starts (s : State) : List Nat :=
  s.tokens.reverse.map (·.start) ++ if s.mode.reading then [s.start] else []

/-- A state that comes from another one at the same place, with at most some more tokens. -/
structure State.Continues (s : State) (more : List Nat) (next : State) : Prop where
  here : next.here = s.here
  starts : next.starts.Sublist (s.starts ++ more)

namespace State.Continues

variable {s next last : State} {more : List Nat}

theorem trans (h : s.Continues [] next) (h' : next.Continues more last) : s.Continues more last := by
  refine ⟨h'.here.trans h.here, h'.starts.trans ?_⟩
  have hs := h.starts
  rw [List.append_nil] at hs
  exact hs.append_right more

theorem widen (h : s.Continues [] next) : s.Continues more next := by
  refine ⟨h.here, h.starts.trans ?_⟩
  rw [List.append_nil]
  exact List.sublist_append_left _ _

theorem enter (m : Mode) (h : m.reading = true → s.mode.reading = true) :
    s.Continues [] (s.enter m) := by
  refine ⟨rfl, ?_⟩
  rw [List.append_nil]
  refine List.Sublist.append_left ?_ _
  by_cases hm : m.reading = true
  · simp [State.enter, hm, h hm]
  · simp [State.enter, hm]

theorem emit (t : Token) (h : s.mode.reading = true) : s.Continues [] (s.emit t) := by
  have he : (s.emit t).starts = s.starts := by
    rw [State.starts, State.starts, h]
    simp [State.emit, Mode.reading]
  exact ⟨rfl, by simp [he]⟩

theorem starts_sublist (s : State) (more : List Nat) :
    (s.tokens.reverse.map (·.start) ++ more).Sublist (s.starts ++ more) :=
  (List.sublist_append_left _ _).append_right more

theorem restart (s : State) (m : Mode) :
    s.Continues [s.here] ({ s with start := s.here }.enter m) := by
  refine ⟨rfl, List.Sublist.trans ?_ (starts_sublist s _)⟩
  refine List.Sublist.append_left ?_ _
  by_cases hm : m.reading = true <;> simp [State.enter, hm]

theorem point (s : State) (t : Token) :
    s.Continues [s.here] ({ s with start := s.here }.emit t) := by
  refine ⟨rfl, List.Sublist.trans ?_ (starts_sublist s _)⟩
  simp [State.starts, State.emit, Mode.reading]

end State.Continues

open State.Continues

section

variable {s next : State} {c : Char}

theorem continues_of_groundStep (h : groundStep s c = some next) : s.Continues [s.here] next := by
  unfold groundStep at h
  split at h
  case h_11 =>
    dsimp only at h
    split_ifs at h
    · cases h
      exact point s _
    · cases h
      exact point s _
    · cases h
      exact restart s _
  all_goals
    cases h
    first | exact point s _ | exact restart s _

theorem continues_of_endedStep {t : Option Token} (hs : s.mode.reading = true)
    (h : (s.emit? t).bind (groundStep · c) = some next) : s.Continues [s.here] next := by
  obtain ⟨s', hs', hg⟩ := Option.bind_eq_some_iff.mp h
  obtain ⟨t, -, rfl⟩ := Option.map_eq_some_iff.mp hs'
  exact (emit t hs).trans (continues_of_groundStep hg)

end

section

variable {s next : State} {c : Char} (hs : s.mode.reading = true)
include hs

theorem continues_of_emitChars? {cs : Option (List Char)} (h : s.emitChars? cs = some next) :
    s.Continues [] next := by
  obtain ⟨cs, -, rfl⟩ := Option.map_eq_some_iff.mp h
  exact emit _ hs

theorem continues_of_slashStep {continued : Bool} (h : slashStep s continued c = some next) :
    s.Continues [] next := by
  unfold slashStep at h
  split at h
  · cases h
    exact enter _ fun _ => hs
  · cases h
    exact enter _ fun _ => hs
  · split_ifs at h
    cases h
    exact emit _ hs
  · cases h

theorem continues_blockCommentStep (continued : Bool) (depth : Nat) (last c : Char) :
    s.Continues [] (blockCommentStep s continued depth last c) := by
  unfold blockCommentStep
  cases depth <;> dsimp only <;> split_ifs <;>
    first | exact enter _ fun _ => hs | exact emit _ hs

theorem continues_hideNewline (c : Char) : s.Continues [] (hideNewline s c) := by
  have he := emit .space hs
  unfold hideNewline
  dsimp only
  split_ifs
  · exact he.trans (enter .hiddenReturn fun h => by cases h)
  · exact he

theorem continues_of_quotedStep {several : Bool} {ws : List Written}
    (h : quotedStep s several ws c = some next) : s.Continues [] next := by
  unfold quotedStep at h
  split_ifs at h <;> cases h <;> first | exact enter _ fun _ => hs | exact emit _ hs

theorem continues_of_innerQuotesStep {count : Nat} {ws : List Written}
    (h : innerQuotesStep s count ws c = some next) : s.Continues [] next := by
  unfold innerQuotesStep at h
  split_ifs at h
  · exact continues_of_emitChars? hs h
  · cases h
    exact enter _ fun _ => hs
  · exact continues_of_quotedStep hs h

theorem continues_of_map_enter {o : Option α} {m : α → Mode}
    (h : o.map (fun x => s.enter (m x)) = some next) : s.Continues [] next := by
  obtain ⟨x, -, rfl⟩ := Option.map_eq_some_iff.mp h
  exact enter _ fun _ => hs

theorem continues_of_backslashStep {several : Bool} {ws : List Written}
    (h : backslashStep s several ws c = some next) : s.Continues [] next := by
  unfold backslashStep at h
  split_ifs at h
  · cases h
    exact enter _ fun _ => hs
  · cases h
    exact enter _ fun _ => hs
  · exact continues_of_map_enter hs h

theorem continues_of_gapStep {several : Bool} {ws : List Written}
    (h : gapStep s several ws c = some next) : s.Continues [] next := by
  unfold gapStep at h
  split_ifs at h
  · cases h
    exact enter _ fun _ => hs
  · exact continues_of_quotedStep hs h

theorem continues_of_codeStep {several : Bool} {ws : List Written} {digits value : Nat}
    (h : codeStep s several ws digits value c = some next) : s.Continues [] next := by
  unfold codeStep at h
  split_ifs at h <;> exact continues_of_map_enter hs h

theorem continues_of_rawStep {hashes : Nat} {cs : List Char} {closing : Option Nat}
    (h : rawStep s hashes cs closing c = some next) : s.Continues [] next := by
  unfold rawStep at h
  cases closing <;> dsimp only at h <;> split_ifs at h <;>
    first | exact continues_of_emitChars? hs h | (cases h; exact enter _ fun _ => hs)

theorem continues_of_rawLinesStep {hashes : Nat} {cs : List Char} {quotes closing : Nat}
    (h : rawLinesStep s hashes cs quotes closing c = some next) : s.Continues [] next := by
  unfold rawLinesStep at h
  split_ifs at h <;>
    first | exact continues_of_emitChars? hs h | (cases h; exact enter _ fun _ => hs)

end

section

variable {s next : State} {c : Char}

theorem continues_of_modeStep (h : modeStep s c = some next) : s.Continues [s.here] next := by
  unfold modeStep at h
  split at h <;> rename_i hm
  case h_1 => exact continues_of_groundStep h
  case h_9 =>
    split_ifs at h
    · cases h
      exact (enter .ground fun h => by cases h).widen
    · have he : (s.enter .ground).Continues [s.here] next := continues_of_groundStep h
      exact (enter .ground fun h => by cases h).trans he
  -- in every other mode a token is being read
  all_goals have hs : s.mode.reading = true := by rw [hm]; rfl
  · split_ifs at h
    · cases h
      exact (enter _ fun _ => hs).widen
    · exact continues_of_endedStep hs h
  · split_ifs at h <;> cases h <;> exact (enter _ fun _ => hs).widen
  · split_ifs at h
    · cases h
      exact (enter _ fun _ => hs).widen
    · exact continues_of_endedStep hs h
  · exact (continues_of_slashStep hs h).widen
  · split_ifs at h
    · cases h
      exact (enter s.mode fun _ => hs).widen
    · cases h
      exact (continues_hideNewline hs _).widen
    · cases h
      exact point s _
  · cases h
    exact (continues_blockCommentStep hs _ _ _ _).widen
  · split_ifs at h
    · cases h
      exact (continues_hideNewline hs _).widen
    · cases h
      exact (enter s.mode fun _ => hs).widen
    · cases h
      exact (enter _ fun _ => hs).widen
  · split_ifs at h
    · cases h
      exact (enter _ fun _ => hs).widen
    · exact (continues_of_quotedStep hs h).widen
  · split_ifs at h
    · cases h
      exact (enter _ fun _ => hs).widen
    · exact (emit (.text "") hs).trans (continues_of_groundStep h)
  · exact (continues_of_quotedStep hs h).widen
  · exact (continues_of_innerQuotesStep hs h).widen
  · exact (continues_of_backslashStep hs h).widen
  · exact (continues_of_gapStep hs h).widen
  · split_ifs at h
    cases h
    exact (enter _ fun _ => hs).widen
  · exact (continues_of_codeStep hs h).widen
  · exact (continues_of_rawStep hs h).widen
  · exact (continues_of_rawLinesStep hs h).widen

theorem step_starts (h : step s c = some next) :
    next.here = s.here + c.utf8Size ∧ next.starts.Sublist (s.starts ++ [s.here]) := by
  obtain ⟨t, ht, rfl⟩ := Option.map_eq_some_iff.mp h
  exact ⟨rfl, (continues_of_modeStep ht).starts⟩

theorem run_starts {cs : List Char} (h : run s cs = some next) :
    next.here = s.here + byteLength cs ∧ next.starts.Sublist (s.starts ++ offsets s.here cs) := by
  induction cs generalizing s with
  | nil =>
    cases h
    exact ⟨rfl, List.sublist_append_left _ _⟩
  | cons c cs ih =>
    obtain ⟨s', hs, hr⟩ : ∃ s', step s c = some s' ∧ run s' cs = some next := by
      simpa only [run, List.foldlM_cons, bind, Option.bind_eq_some_iff] using h
    obtain ⟨hhere, hstarts⟩ := step_starts hs
    obtain ⟨hhere', hstarts'⟩ := ih hr
    rw [hhere] at hhere' hstarts'
    refine ⟨by rw [hhere', byteLength, Nat.add_assoc], hstarts'.trans ?_⟩
    rw [offsets, List.append_cons]
    exact hstarts.append_right _

theorem finish_starts {ts : List PlacedToken} (h : finish s = some ts) :
    (ts.map (·.start)).Sublist s.starts := by
  have ended {next : State} (hc : s.Continues [] next) (hts : next.tokens.reverse = ts) :
      (ts.map (·.start)).Sublist s.starts := by
    have hn := hc.starts
    rw [List.append_nil] at hn
    rw [← hts]
    exact (List.sublist_append_left _ _).trans hn
  have stays : s.Continues [] s := enter s.mode id
  obtain ⟨next, hn, hts⟩ := Option.map_eq_some_iff.mp h
  refine ended ?_ hts
  have emitted {t : Option Token} (hs : s.mode.reading = true) (h : s.emit? t = some next) :
      s.Continues [] next := by
    obtain ⟨t, -, rfl⟩ := Option.map_eq_some_iff.mp h
    exact emit t hs
  split at hn <;> rename_i hm
  · cases hn
    exact stays
  · exact emitted (by rw [hm]; rfl) hn
  · exact emitted (by rw [hm]; rfl) hn
  · cases hn
    exact stays
  · cases hn
    exact stays
  · cases hn
    exact stays
  · cases hn
    exact emit _ (by rw [hm]; rfl)
  · cases hn

/-- Every token starts at a character of its own, in the order of the text. -/
theorem starts_sublist_of_tokensFrom? {here : Nat} {cs : List Char} {ts : List PlacedToken}
    (h : tokensFrom? here cs = some ts) : (ts.map (·.start)).Sublist (offsets here cs) := by
  obtain ⟨s, hs, hf⟩ := Option.bind_eq_some_iff.mp h
  exact (finish_starts hf).trans (run_starts hs).2

theorem starts_sublist_of_tokens? {text : String} {ts : List PlacedToken}
    (h : tokens? text = some ts) : (ts.map (·.start)).Sublist (offsets 0 text.toList) := by
  unfold tokens? at h
  split at h
  · rename_i cs hcs
    have hmark : '\uFEFF'.utf8Size = 3 := by decide
    rw [hcs, offsets, hmark, Nat.zero_add]
    exact (starts_sublist_of_tokensFrom? h).cons 0
  · exact starts_sublist_of_tokensFrom? h

end

/-- The offset of a character is the length of what stands before it. -/
theorem mem_offsets_iff {here place : Nat} {cs : List Char} :
    place ∈ offsets here cs ↔
      ∃ before c after, cs = before ++ c :: after ∧ place = here + byteLength before := by
  induction cs generalizing here with
  | nil => simp [offsets]
  | cons d cs ih =>
    rw [offsets, List.mem_cons, ih]
    constructor
    · rintro (rfl | ⟨before, c, after, rfl, rfl⟩)
      · exact ⟨[], d, cs, rfl, rfl⟩
      · exact ⟨d :: before, c, after, rfl, by rw [byteLength, Nat.add_assoc]⟩
    · rintro ⟨before, c, after, he, rfl⟩
      cases before with
      | nil => exact .inl rfl
      | cons b before =>
        obtain ⟨rfl, rfl⟩ := List.cons.inj he
        exact .inr ⟨before, c, after, rfl, by rw [byteLength, Nat.add_assoc]⟩

theorem pairwise_offsets (here : Nat) (cs : List Char) : (offsets here cs).Pairwise (· < ·) := by
  induction cs generalizing here with
  | nil => exact List.Pairwise.nil
  | cons c cs ih =>
    refine List.pairwise_cons.mpr ⟨fun place hp => ?_, ih _⟩
    obtain ⟨before, -, -, -, rfl⟩ := mem_offsets_iff.mp hp
    have hc := c.utf8Size_pos
    omega

end Scanner

namespace Node

mutual

def starts : Node → List Nat
  | ⟨start, _, _, block⟩ => start :: startsBlock block

def startsBlock : Option (List Node) → List Nat
  | none => []
  | some nodes => startsAll nodes

def startsAll : List Node → List Nat
  | [] => []
  | n :: ns => n.starts ++ startsAll ns

end

theorem startsAll_eq_flatMap (nodes : List Node) : startsAll nodes = nodes.flatMap starts := by
  induction nodes with
  | nil => simp [startsAll]
  | cons n ns ih => simp [startsAll, ih]

theorem starts_eq (n : Node) :
    n.starts = n.start :: (n.children.getD []).flatMap starts := by
  obtain ⟨start, name, entries, block⟩ := n
  cases block with
  | none => simp [starts, startsBlock]
  | some nodes => simp [starts, startsBlock, startsAll_eq_flatMap]

end Node

namespace Builder

def Draft.starts (d : Draft) : List Nat :=
  d.start :: (d.children.getD []).flatMap Node.starts

def Mode.starts : Mode → List Nat
  | .between _ => []
  | .naming _ start _ => [start]
  | .inside d _ => d.starts

def OpenNode.starts (o : OpenNode) : List Nat :=
  o.earlier.reverse.flatMap Node.starts ++ o.draft.starts

def State.before (s : State) : List Nat :=
  s.opened.reverse.flatMap OpenNode.starts ++ s.nodes.reverse.flatMap Node.starts

def State.starts (s : State) : List Nat :=
  s.before ++ s.mode.starts

theorem Draft.starts_add (d : Draft) (dropped : Bool) (e : Entry) :
    (d.add dropped e).starts = d.starts := by
  cases dropped <;> rfl

section

variable {s next : State} {d : Draft} {t : PlacedToken}

theorem starts_complete (s : State) (d : Draft) :
    (s.complete d).starts.Sublist (s.before ++ d.starts) := by
  have hnode : d.node.starts = d.starts := Node.starts_eq d.node
  by_cases hd : d.dropped = true
  · simp [State.starts, State.before, State.complete, Mode.starts, hd]
  · simp [State.starts, State.before, State.complete, Mode.starts, hd, hnode]

theorem starts_openBlock (s : State) (d : Draft) (dropped : Bool) :
    (s.openBlock d dropped).starts = s.before ++ d.starts := by
  simp [State.starts, State.before, State.openBlock, Mode.starts, OpenNode.starts]

theorem starts_of_closeBlock? (h : s.closeBlock? = some next) : next.starts.Sublist s.before := by
  obtain ⟨mode, nodes, opened⟩ := s
  cases opened with
  | nil => cases h
  | cons o outer =>
    cases h
    by_cases hd : o.dropped = true
    · simp [State.starts, State.before, OpenNode.starts, Mode.starts, hd]
    · simp [State.starts, State.before, OpenNode.starts, Mode.starts, hd, Draft.starts]

theorem before_sublist (s : State) : s.before.Sublist s.starts :=
  List.sublist_append_left _ _

/-- A step leaves some places as they are, or drops some, and adds at most that of its token. -/
def State.Adds (next : State) (places : List Nat) (t : PlacedToken) : Prop :=
  next.starts.Sublist (places ++ [t.start])

theorem State.adds_of_sublist {places : List Nat} (h : next.starts.Sublist places) :
    next.Adds places t :=
  h.trans (List.sublist_append_left _ _)

theorem State.adds_of_eq {places : List Nat} (h : next.starts = places) : next.Adds places t :=
  State.adds_of_sublist (h ▸ List.Sublist.refl _)

theorem starts_enter (s : State) (m : Mode) : (s.enter m).starts = s.before ++ m.starts :=
  rfl

theorem enter_adds (s : State) (d : Draft) (p : Phase) (t : PlacedToken) :
    (s.enter (.inside d p)).Adds (s.before ++ d.starts) t :=
  State.adds_of_eq rfl

theorem add_adds (s : State) (d : Draft) (dropped : Bool) (e : Entry) (p : Phase)
    (t : PlacedToken) : (s.enter (.inside (d.add dropped e) p)).Adds (s.before ++ d.starts) t := by
  rw [← Draft.starts_add d dropped e]
  exact enter_adds s _ p t

theorem openBlock_adds (s : State) (d : Draft) (dropped : Bool) (t : PlacedToken) :
    (s.openBlock d dropped).Adds (s.before ++ d.starts) t :=
  State.adds_of_eq (starts_openBlock s d dropped)

theorem betweenStep_adds {dropped : Bool} (hn : betweenStep s dropped t = some next) :
    next.Adds s.starts t := by
  have unchanged (m : Mode) (hm : m.starts = []) : (s.enter m).Adds s.starts t := by
    refine State.adds_of_sublist ?_
    rw [starts_enter, hm, List.append_nil]
    exact before_sublist s
  have named (m : Mode) (hm : m.starts = [t.start]) : (s.enter m).Adds s.starts t := by
    rw [State.Adds, starts_enter, hm]
    exact (before_sublist s).append_right _
  unfold betweenStep at hn
  split at hn
  · cases hn
    exact State.adds_of_eq rfl
  · cases hn
    exact State.adds_of_eq rfl
  · split_ifs at hn
    cases hn
    exact unchanged _ rfl
  · cases hn
    exact named _ rfl
  · cases hn
    exact named _ rfl
  · split_ifs at hn
    exact State.adds_of_sublist ((starts_of_closeBlock? hn).trans (before_sublist s))
  · cases hn

theorem leaveStep_adds (hn : leaveStep s d t = some next) : next.Adds (s.before ++ d.starts) t := by
  have hc := starts_complete s d
  unfold leaveStep at hn
  split at hn
  · cases hn
    exact State.adds_of_sublist hc
  · split_ifs at hn
    cases hn
    exact State.adds_of_sublist hc
  · exact State.adds_of_sublist (((starts_of_closeBlock? hn).trans (before_sublist _)).trans hc)
  · split_ifs at hn
    exact (betweenStep_adds hn).trans (hc.append_right _)

theorem entriesStep_adds {spaced : Bool} (hn : entriesStep s d spaced t = some next) :
    next.Adds (s.before ++ d.starts) t := by
  unfold entriesStep at hn
  split at hn
  · cases hn
    exact enter_adds s d _ t
  · cases hn
    exact openBlock_adds s d false t
  · split_ifs at hn
    · cases hn
      exact enter_adds s d _ t
    · exact leaveStep_adds hn
  · split_ifs at hn
    · cases hn
      exact add_adds s d _ _ _ t
    · exact leaveStep_adds hn
  · split_ifs at hn
    · cases hn
      exact enter_adds s d _ t
    · exact leaveStep_adds hn
  · split_ifs at hn
    · cases hn
      exact enter_adds s d _ t
    · exact leaveStep_adds hn
  · exact leaveStep_adds hn

theorem typingStep_adds {key : Option String} {dropped : Bool} {ty : Typing}
    (hn : typingStep s d key dropped ty t.token = some next) :
    next.Adds (s.before ++ d.starts) t := by
  unfold typingStep at hn
  split at hn
  · cases hn
    exact add_adds s d _ _ _ t
  · cases hn
    exact add_adds s d _ _ _ t
  · obtain ⟨ty', -, rfl⟩ := Option.map_eq_some_iff.mp hn
    exact enter_adds s d _ t

theorem assignedStep_adds {key : String} {dropped : Bool} (hs : s.mode.starts = d.starts)
    (hn : assignedStep s d key dropped t.token = some next) :
    next.Adds (s.before ++ d.starts) t := by
  unfold assignedStep at hn
  split at hn
  · cases hn
    exact State.adds_of_eq (congrArg (s.before ++ ·) hs)
  · cases hn
    exact enter_adds s d _ t
  · cases hn
    exact add_adds s d _ _ _ t
  · cases hn
    exact add_adds s d _ _ _ t
  · cases hn

theorem discardingStep_adds (hs : s.mode.starts = d.starts)
    (hn : discardingStep s d t.token = some next) : next.Adds (s.before ++ d.starts) t := by
  have unchanged : s.Adds (s.before ++ d.starts) t :=
    State.adds_of_eq (congrArg (s.before ++ ·) hs)
  unfold discardingStep at hn
  split at hn
  case h_3 =>
    cases hn
    exact openBlock_adds s d true t
  case h_7 => cases hn
  all_goals
    cases hn
    first | exact unchanged | exact enter_adds s d _ t

theorem blocksStep_adds {spaced : Bool} (hn : blocksStep s d spaced t = some next) :
    next.Adds (s.before ++ d.starts) t := by
  unfold blocksStep at hn
  split at hn
  · cases hn
    exact enter_adds s d _ t
  · split_ifs at hn
    · exact leaveStep_adds hn
    · cases hn
      exact openBlock_adds s d false t
  · split_ifs at hn
    · cases hn
      exact enter_adds s d _ t
    · exact leaveStep_adds hn
  · exact leaveStep_adds hn

theorem insideStep_adds {p : Phase} (hs : s.mode.starts = d.starts)
    (hn : insideStep s d p t = some next) : next.Adds (s.before ++ d.starts) t := by
  have unchanged : s.Adds (s.before ++ d.starts) t :=
    State.adds_of_eq (congrArg (s.before ++ ·) hs)
  unfold insideStep at hn
  split at hn
  · exact entriesStep_adds hn
  · split at hn
    · cases hn
      exact enter_adds s d _ t
    · cases hn
      exact enter_adds s d _ t
    · have ha := entriesStep_adds hn
      rwa [Draft.starts_add] at ha
  · exact typingStep_adds hn
  · exact assignedStep_adds hs hn
  · exact discardingStep_adds hs hn
  · exact blocksStep_adds hn
  · split at hn
    · cases hn
      exact unchanged
    · cases hn
      exact unchanged
    · cases hn
      exact openBlock_adds s d true t
    · cases hn

theorem namingStep_adds {dropped : Bool} {start : Nat} {ty : Typing}
    (hn : namingStep s dropped start ty t.token = some next) :
    next.Adds (s.before ++ [start]) t := by
  unfold namingStep at hn
  split at hn
  · cases hn
    exact State.adds_of_eq rfl
  · obtain ⟨ty', -, rfl⟩ := Option.map_eq_some_iff.mp hn
    exact State.adds_of_eq rfl

theorem step_adds (hn : step s t = some next) : next.Adds s.starts t := by
  unfold step at hn
  split at hn <;> rename_i hm
  · exact betweenStep_adds hn
  · have ha := namingStep_adds hn
    rwa [State.starts, hm]
  · have ha := insideStep_adds (by rw [hm]; rfl) hn
    rwa [State.starts, hm]

theorem run_adds {ts : List PlacedToken} (hn : run s ts = some next) :
    next.starts.Sublist (s.starts ++ ts.map (·.start)) := by
  induction ts generalizing s with
  | nil =>
    cases hn
    exact List.sublist_append_left _ _
  | cons t ts ih =>
    obtain ⟨s', hs, hr⟩ : ∃ s', step s t = some s' ∧ run s' ts = some next := by
      simpa only [run, List.foldlM_cons, bind, Option.bind_eq_some_iff] using hn
    refine (ih hr).trans ?_
    rw [List.map_cons, List.append_cons]
    exact (step_adds hs).append_right _

theorem finish_adds {nodes : List Node} (hn : finish s = some nodes) :
    (nodes.flatMap Node.starts).Sublist s.starts := by
  have ended {s : State} (ho : s.opened = []) :
      (s.nodes.reverse.flatMap Node.starts).Sublist s.starts := by
    simp [State.starts, State.before, ho]
  obtain ⟨ho, ⟨-, rfl⟩ | ⟨d, p, d', hm, hd, rfl⟩⟩ := finish_eq_some hn
  · exact ended ho
  · have hstarts : d'.starts = d.starts := by
      cases p <;> cases hd <;> first | rfl | exact Draft.starts_add _ _ _
    refine (ended (s := s.complete d') ho).trans ((starts_complete s d').trans ?_)
    rw [State.starts, hm, hstarts]
    exact List.Sublist.refl _

end

end Builder

namespace Document

theorem feedsBefore_append_of_le {cs : List Char} {offset : Nat} (h : offset ≤ byteLength cs)
    (ds : List Char) : feedsBefore (cs ++ ds) offset = feedsBefore cs offset := by
  induction cs generalizing offset with
  | nil =>
    obtain rfl : offset = 0 := Nat.le_zero.mp h
    cases ds <;> rfl
  | cons c cs ih =>
    rw [byteLength] at h
    by_cases hz : offset = 0
    · simp [feedsBefore, hz]
    · have hle : offset - c.utf8Size ≤ byteLength cs := by omega
      have hr := ih hle
      simp [feedsBefore, hz, hr]

theorem feedsBefore_append_add (cs ds : List Char) (offset : Nat) :
    feedsBefore (cs ++ ds) (byteLength cs + offset) = cs.count '\n' + feedsBefore ds offset := by
  induction cs with
  | nil => simp [byteLength]
  | cons c cs ih =>
    have hp : 0 < c.utf8Size := Char.utf8Size_pos c
    have hsub : c.utf8Size + byteLength cs + offset - c.utf8Size = byteLength cs + offset := by omega
    simp only [List.cons_append, feedsBefore, byteLength, hsub, ih, List.count_cons, beq_iff_eq]
    rw [if_neg (by omega)]
    omega

theorem feedsBefore_append (cs ds : List Char) :
    feedsBefore (cs ++ ds) (byteLength cs) = cs.count '\n' := by
  have h := feedsBefore_append_add cs ds 0
  have hz : feedsBefore ds 0 = 0 := by cases ds <;> rfl
  rwa [hz, Nat.add_zero, Nat.add_zero] at h

/-- Every node of a document starts at a character of its own, in the order of the text. -/
theorem starts_sublist_of_read? {text : String} {nodes : List Node} (h : read? text = some nodes) :
    (nodes.flatMap Node.starts).Sublist (Scanner.offsets 0 text.toList) := by
  obtain ⟨ts, hts, hb⟩ := Option.bind_eq_some_iff.mp h
  obtain ⟨s, hs, hf⟩ := Option.bind_eq_some_iff.mp hb
  have hrun : s.starts.Sublist (ts.map (·.start)) := Builder.run_adds hs
  exact ((Builder.finish_adds hf).trans hrun).trans (Scanner.starts_sublist_of_tokens? hts)

theorem starts_le_of_read? {text : String} {nodes : List Node} (h : read? text = some nodes) :
    ∀ x ∈ nodes.flatMap Node.starts, x ≤ byteLength text.toList := by
  intro x hx
  obtain ⟨before, c, after, ht, rfl⟩ :=
    Scanner.mem_offsets_iff.mp ((starts_sublist_of_read? h).subset hx)
  rw [ht, byteLength_append, Nat.zero_add]
  exact Nat.le_add_right _ _

end Document

end EditHook
