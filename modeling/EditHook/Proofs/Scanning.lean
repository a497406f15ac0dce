import EditHook.Document.Scanner
import EditHook.Proofs.Encoding
import Mathlib.Tactic.SplitIfs

/-! A scan that starts anew. What a scan reads next depends neither on the tokens that it has nor on
the offset at which it stands, so a text may be cut where a token ends and the rest scanned by
itself. -/

namespace EditHook

def PlacedToken.moved (offset : Nat) (t : PlacedToken) : PlacedToken :=
  { t with start := t.start + offset }

namespace Scanner

def State.moved (s : State) (offset : Nat) (earlier : List PlacedToken) : State :=
  ⟨s.mode, s.here + offset, s.start + offset, s.tokens.map (·.moved offset) ++ earlier⟩

section

variable (s : State) (offset : Nat) (earlier : List PlacedToken) (c : Char)

theorem groundStep_moved :
    groundStep (s.moved offset earlier) c = (groundStep s c).map (·.moved offset earlier) := by
  unfold groundStep
  split
  case h_11 => dsimp only; split_ifs <;> rfl
  all_goals rfl

theorem slashStep_moved (continued : Bool) :
    slashStep (s.moved offset earlier) continued c =
      (slashStep s continued c).map (·.moved offset earlier) := by
  unfold slashStep
  split
  case h_3 => split_ifs <;> rfl
  all_goals rfl

theorem blockCommentStep_moved (continued : Bool) (depth : Nat) (last : Char) :
    blockCommentStep (s.moved offset earlier) continued depth last c =
      (blockCommentStep s continued depth last c).moved offset earlier := by
  unfold blockCommentStep
  cases depth <;> dsimp only <;> split_ifs <;> rfl

theorem hideNewline_moved :
    hideNewline (s.moved offset earlier) c = (hideNewline s c).moved offset earlier := by
  unfold hideNewline
  dsimp only
  split_ifs <;> rfl

theorem quotedStep_moved (several : Bool) (ws : List Written) :
    quotedStep (s.moved offset earlier) several ws c =
      (quotedStep s several ws c).map (·.moved offset earlier) := by
  unfold quotedStep
  split_ifs <;> rfl

theorem emit?_moved (t : Option Token) :
    (s.moved offset earlier).emit? t = (s.emit? t).map (·.moved offset earlier) := by
  cases t <;> rfl

theorem emitChars?_moved (cs : Option (List Char)) :
    (s.moved offset earlier).emitChars? cs = (s.emitChars? cs).map (·.moved offset earlier) := by
  cases cs <;> rfl

theorem endedStep_moved (t : Option Token) :
    ((s.moved offset earlier).emit? t).bind (groundStep · c) =
      ((s.emit? t).bind (groundStep · c)).map (·.moved offset earlier) := by
  cases t with
  | none => rfl
  | some t => exact groundStep_moved (s.emit t) offset earlier c

theorem innerQuotesStep_moved (count : Nat) (ws : List Written) :
    innerQuotesStep (s.moved offset earlier) count ws c =
      (innerQuotesStep s count ws c).map (·.moved offset earlier) := by
  unfold innerQuotesStep
  split_ifs
  · exact emitChars?_moved s offset earlier _
  · rfl
  · exact quotedStep_moved s offset earlier c _ _

theorem backslashStep_moved (several : Bool) (ws : List Written) :
    backslashStep (s.moved offset earlier) several ws c =
      (backslashStep s several ws c).map (·.moved offset earlier) := by
  unfold backslashStep
  split_ifs
  · rfl
  · rfl
  · cases escape? c <;> rfl

theorem gapStep_moved (several : Bool) (ws : List Written) :
    gapStep (s.moved offset earlier) several ws c =
      (gapStep s several ws c).map (·.moved offset earlier) := by
  unfold gapStep
  split_ifs
  · rfl
  · exact quotedStep_moved s offset earlier c _ _

theorem codeStep_moved (several : Bool) (ws : List Written) (digits value : Nat) :
    codeStep (s.moved offset earlier) several ws digits value c =
      (codeStep s several ws digits value c).map (·.moved offset earlier) := by
  unfold codeStep
  split_ifs
  · rfl
  · cases Character.ofCode? value <;> rfl
  · rfl
  · cases Character.hexValue? c <;> rfl

theorem rawStep_moved (hashes : Nat) (cs : List Char) (closing : Option Nat) :
    rawStep (s.moved offset earlier) hashes cs closing c =
      (rawStep s hashes cs closing c).map (·.moved offset earlier) := by
  unfold rawStep
  cases closing <;> dsimp only <;> split_ifs <;>
    first | rfl | exact emitChars?_moved s offset earlier _

theorem rawLinesStep_moved (hashes : Nat) (cs : List Char) (quotes closing : Nat) :
    rawLinesStep (s.moved offset earlier) hashes cs quotes closing c =
      (rawLinesStep s hashes cs quotes closing c).map (·.moved offset earlier) := by
  unfold rawLinesStep
  split_ifs <;> first | rfl | exact emitChars?_moved s offset earlier _

theorem modeStep_moved :
    modeStep (s.moved offset earlier) c = (modeStep s c).map (·.moved offset earlier) := by
  have hm : (s.moved offset earlier).mode = s.mode := rfl
  unfold modeStep
  rw [hm]
  cases s.mode with
  | ground => exact groundStep_moved s offset earlier c
  | word cs =>
    dsimp only
    split_ifs
    · rfl
    · exact endedStep_moved s offset earlier c _
  | hashes n =>
    dsimp only
    split_ifs <;> rfl
  | keyword cs =>
    dsimp only
    split_ifs
    · rfl
    · exact endedStep_moved s offset earlier c _
  | slash continued => exact slashStep_moved s offset earlier c _
  | lineComment continued =>
    dsimp only
    split_ifs
    · rfl
    · exact congrArg some (hideNewline_moved s offset earlier c)
    · rfl
  | blockComment continued depth last =>
    exact congrArg some (blockCommentStep_moved s offset earlier c _ _ _)
  | continued =>
    dsimp only
    split_ifs
    · exact congrArg some (hideNewline_moved s offset earlier c)
    · rfl
    · rfl
    · rfl
  | hiddenReturn =>
    dsimp only
    split_ifs
    · rfl
    · exact groundStep_moved (s.enter .ground) offset earlier c
  | quoteOpen =>
    dsimp only
    split_ifs
    · rfl
    · exact quotedStep_moved s offset earlier c _ _
  | quotePair =>
    dsimp only
    split_ifs
    · rfl
    · exact groundStep_moved (s.emit (.text "")) offset earlier c
  | quoted several ws => exact quotedStep_moved s offset earlier c _ _
  | innerQuotes count ws => exact innerQuotesStep_moved s offset earlier c _ _
  | backslash several ws => exact backslashStep_moved s offset earlier c _ _
  | gap several ws => exact gapStep_moved s offset earlier c _ _
  | codeStart several ws =>
    dsimp only
    split_ifs <;> rfl
  | code several ws digits value => exact codeStep_moved s offset earlier c _ _ _ _
  | raw hashes cs closing => exact rawStep_moved s offset earlier c _ _ _
  | rawLines hashes cs quotes closing => exact rawLinesStep_moved s offset earlier c _ _ _ _

theorem step_moved :
    step (s.moved offset earlier) c = (step s c).map (·.moved offset earlier) := by
  rw [step, step, modeStep_moved, Option.map_map, Option.map_map]
  refine congrFun (congrArg Option.map (funext fun t => ?_)) _
  simp only [Function.comp_apply, State.moved]
  rw [Nat.add_right_comm]

theorem run_moved (cs : List Char) :
    run (s.moved offset earlier) cs = (run s cs).map (·.moved offset earlier) := by
  induction cs generalizing s with
  | nil => rfl
  | cons c cs ih =>
    simp only [run, List.foldlM_cons] at ih ⊢
    rw [step_moved]
    cases step s c with
    | none => rfl
    | some next => exact ih next

theorem finish_moved :
    finish (s.moved offset earlier) =
      (finish s).map (fun ts => earlier.reverse ++ ts.map (·.moved offset)) := by
  have hr (s : State) : (s.moved offset earlier).tokens.reverse =
      earlier.reverse ++ s.tokens.reverse.map (·.moved offset) := by
    simp [State.moved]
  have ho (t : Option Token) :
      ((s.moved offset earlier).emit? t).map (·.tokens.reverse) = ((s.emit? t).map
        (·.tokens.reverse)).map (fun ts => earlier.reverse ++ ts.map (·.moved offset)) := by
    rw [emit?_moved, Option.map_map, Option.map_map]
    exact congrFun (congrArg Option.map (funext hr)) _
  have hm : (s.moved offset earlier).mode = s.mode := rfl
  unfold finish
  rw [hm]
  cases s.mode with
  | ground => exact congrArg some (hr s)
  | word cs => exact ho _
  | keyword cs => exact ho _
  | lineComment continued => exact congrArg some (hr s)
  | continued => exact congrArg some (hr s)
  | hiddenReturn => exact congrArg some (hr s)
  | quotePair => exact congrArg some (hr (s.emit (.text "")))
  | _ => rfl

end

theorem run_append (s : State) (cs ds : List Char) :
    run s (cs ++ ds) = (run s cs).bind (run · ds) := by
  simp [run, List.foldlM_append, bind]

def tokensFrom? (here : Nat) (cs : List Char) : Option (List PlacedToken) :=
  (run (start here) cs).bind finish

theorem finish_run_moved (s : State) (offset : Nat) (earlier : List PlacedToken) (cs : List Char) :
    (run (s.moved offset earlier) cs).bind finish =
      ((run s cs).bind finish).map (fun ts => earlier.reverse ++ ts.map (·.moved offset)) := by
  rw [run_moved, Option.bind_map, Option.map_bind]
  exact congrArg _ (funext fun t => finish_moved t offset earlier)

/-- Between two tokens, neither the tokens before nor the place where the last one started have a
part in what follows. -/
theorem finish_run_ground (here before : Nat) (tokens : List PlacedToken) (cs : List Char) :
    (run ⟨.ground, here, before, tokens⟩ cs).bind finish =
      (tokensFrom? here cs).map (tokens.reverse ++ ·) := by
  have hs : (run ⟨.ground, here, before, tokens⟩ cs).bind finish =
      (run ((start here).moved 0 tokens) cs).bind finish := by
    cases cs <;> rfl
  rw [hs, finish_run_moved]
  simp [tokensFrom?, PlacedToken.moved]

/-- Characters that are scanned as one token if these characters follow. -/
def Scans (cs : List Char) (t : Token) (after : List Char) : Prop :=
  ∀ here, ∃ before, run (start here) (cs ++ after) =
    run ⟨.ground, here + byteLength cs, before, [⟨t, here⟩]⟩ after

theorem Scans.tokensFrom?_eq {cs after : List Char} {t : Token} (h : Scans cs t after) (here : Nat) :
    tokensFrom? here (cs ++ after) =
      (tokensFrom? (here + byteLength cs) after).map (⟨t, here⟩ :: ·) := by
  obtain ⟨before, hr⟩ := h here
  rw [tokensFrom?, hr, finish_run_ground]
  rfl

theorem scans_of_groundStep {c : Char} {t : Token} (after : List Char)
    (h : ∀ s : State, groundStep s c = some ({ s with start := s.here }.emit t)) :
    Scans [c] t after := by
  intro here
  refine ⟨here, ?_⟩
  rw [run_append, run, List.foldlM_cons, step, modeStep]
  simp only [start]
  rw [h]
  simp [State.emit, byteLength]

theorem scans_space (after : List Char) : Scans [' '] .space after :=
  scans_of_groundStep after fun _ => rfl

theorem scans_newline (after : List Char) : Scans ['\n'] .newline after :=
  scans_of_groundStep after fun _ => rfl

theorem scans_blockStart (after : List Char) : Scans ['\x7b'] .blockStart after :=
  scans_of_groundStep after fun _ => rfl

theorem scans_blockEnd (after : List Char) : Scans ['\x7d'] .blockEnd after :=
  scans_of_groundStep after fun _ => rfl

end Scanner

end EditHook
