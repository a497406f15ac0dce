import EditHook.Glob.Basic
import EditHook.Proofs.Results

/-! Runs of the glob reader, taken a step at a time: what every step keeps holds after a run, and a
map of states that every step respects carries one run over to another. -/

namespace EditHook

namespace Piece

@[simp]
theorem endsAtSeparator_literal (c : Char) : (literal c).endsAtSeparator = (c == '/') :=
  rfl

@[simp]
theorem endsAtSeparator_leading : leading.endsAtSeparator = true :=
  rfl

@[simp]
theorem endsAtSeparator_between : between.endsAtSeparator = true :=
  rfl

end Piece

namespace GlobReader

/-- What holds at the start and is kept by every step holds after a run. -/
theorem run_keeps {P : State → List Char → Prop}
    (hstep : ∀ {s s' cs c}, P s cs → step s c = .ok s' → P s' (cs ++ [c]))
    {s s' : State} {cs ds : List Char} (h : P s cs) (hr : run s ds = .ok s') :
    P s' (cs ++ ds) := by
  induction ds generalizing s cs with
  | nil =>
    cases hr
    simpa using h
  | cons d ds ih =>
    rw [run, List.foldlM_cons] at hr
    obtain ⟨next, hn, hr⟩ := bind_eq_ok hr
    have hh := ih (hstep h hn) hr
    rwa [List.append_assoc] at hh

theorem run_cons (s : State) (c : Char) (cs : List Char) :
    run s (c :: cs) = step s c >>= fun s' => run s' cs :=
  List.foldlM_cons

theorem run_append (s : State) (cs ds : List Char) :
    run s (cs ++ ds) = run s cs >>= fun s' => run s' ds :=
  List.foldlM_append

theorem compile_eq_ok_iff {text : String} {g : Glob} :
    Glob.compile text = .ok g ↔
      ∃ s, run start text.toList = .ok s ∧ finish s = .ok g.pieces := by
  simp only [Glob.compile, bind_eq_ok_iff]
  constructor
  · rintro ⟨s, hs, pieces, hf, h⟩
    cases h
    exact ⟨s, hs, hf⟩
  · rintro ⟨s, hs, hf⟩
    exact ⟨s, hs, g.pieces, hf, rfl⟩

def starComponents (n : Nat) : List Char :=
  (List.replicate n ['*', '*', '/']).flatten

theorem starComponents_succ (n : Nat) :
    starComponents (n + 1) = starComponents n ++ ['*', '*', '/'] := by
  simp [starComponents, List.replicate_succ']

theorem starComponents_cons (n : Nat) :
    starComponents (n + 1) = ['*', '*', '/'] ++ starComponents n := by
  simp [starComponents, List.replicate_succ]

def pending? : Mode → Option (List Char)
  | .plain => some []
  | .star => some ['*']
  | .doubleStar => some ['*', '*']
  | _ => none

def lastStars (ps : List Piece) : List Piece :=
  (wholeComponent? ps .textEnd).getD (.star :: .star :: ps)

/-- The pieces, last first, if the text ends here. -/
def settled (s : State) : List Piece :=
  match s.mode with
  | .star => .star :: s.current
  | .doubleStar => lastStars s.current
  | _ => s.current

theorem finish_eq_ok {s : State} {pieces : List Piece} (h : finish s = .ok pieces) :
    s.groups = [] ∧ (∃ stars, pending? s.mode = some stars) ∧ pieces = (settled s).reverse := by
  obtain ⟨mode, current, groups⟩ := s
  cases groups with
  | cons g gs => cases mode <;> cases h
  | nil =>
    refine ⟨rfl, ?_⟩
    cases mode with
    | plain =>
      cases h
      exact ⟨⟨_, rfl⟩, rfl⟩
    | star =>
      cases h
      exact ⟨⟨_, rfl⟩, rfl⟩
    | doubleStar =>
      cases h
      exact ⟨⟨_, rfl⟩, rfl⟩
    | classStart => cases h
    | members => cases h

def whole? (s : State) (n : Next) : Option State :=
  (wholeComponent? s.current n).map (⟨.plain, ·, s.groups⟩)

theorem doubleStarStep_eq (s : State) (c : Char) :
    doubleStarStep s c =
      match whole? s (next s c) with
      | none => plainStep (twoStars s) c
      | some s' => if c = '/' then .ok s' else plainStep s' c := by
  rw [doubleStarStep, whole?]
  cases wholeComponent? s.current (next s c) <;> rfl

/-- A map of states that the reader respects at some characters. -/
structure Mirrors (f : State → State) (at' : Char → Prop) : Prop where
  enter : ∀ s mode, ⟨mode, (f s).current, (f s).groups⟩ = f ⟨mode, s.current, s.groups⟩
  push : ∀ s p, p ≠ .leading → (f s).push p = f (s.push p)
  plainStep : ∀ s c, at' c → plainStep (f s) c = (plainStep s c).map f
  whole? : ∀ s c, at' c → whole? (f s) (next (f s) c) = (whole? s (next s c)).map f

namespace Mirrors

variable {f : State → State} {at' : Char → Prop} {c : Char}

theorem mode (h : Mirrors f at') (s : State) : (f s).mode = s.mode := by
  have he := congrArg State.mode (h.enter s s.mode)
  exact he.symm

theorem doubleStarStep (h : Mirrors f at') (hc : at' c) (s : State) :
    doubleStarStep (f s) c = (doubleStarStep s c).map f := by
  have ht : twoStars (f s) = f (twoStars s) := by
    simp only [twoStars, h.push _ .star (by decide)]
  rw [doubleStarStep_eq, doubleStarStep_eq, h.whole? s c hc, ht]
  cases GlobReader.whole? s (next s c) with
  | none => exact h.plainStep (twoStars s) c hc
  | some s' =>
    by_cases hs : c = '/'
    · simp [hs, Except.map]
    · simpa [hs] using h.plainStep s' c hc

theorem memberStep (h : Mirrors f at') (s : State) (negated : Bool) (ranges : List (Char × Char))
    (dash : Bool) :
    memberStep (f s) negated ranges dash c = (memberStep s negated ranges dash c).map f := by
  unfold GlobReader.memberStep
  split
  · simp [h.enter, Except.map]
  · split
    · simp [h.push, Except.map]
    · split
      · cases extendLast ranges c with
        | error e => rfl
        | ok extended =>
          simp only [h.enter]
          rfl
      · split <;> simp [h.enter, Except.map]

theorem step (h : Mirrors f at') (hc : at' c) (s : State) :
    step (f s) c = (step s c).map f := by
  unfold GlobReader.step
  rw [h.mode]
  cases s.mode with
  | plain => exact h.plainStep s c hc
  | star =>
    by_cases hs : c = '*'
    · simp [hs, h.enter, Except.map]
    · simpa [hs, h.push] using h.plainStep (s.push .star) c hc
  | doubleStar => exact h.doubleStarStep hc s
  | classStart =>
    by_cases hs : c = '!' ∨ c = '^'
    · simp [hs, h.enter, Except.map]
    · simpa [hs] using h.memberStep s false [] false
  | members negated ranges dash => exact h.memberStep s negated ranges dash

theorem run (h : Mirrors f at') {cs : List Char} (hc : ∀ c ∈ cs, at' c) (s : State) :
    run (f s) cs = (run s cs).map f := by
  induction cs generalizing s with
  | nil => rfl
  | cons c cs ih =>
    have hr := ih fun d hd => hc d (List.mem_cons_of_mem c hd)
    simp only [GlobReader.run, List.foldlM_cons] at hr ⊢
    rw [h.step (hc c List.mem_cons_self)]
    cases GlobReader.step s c with
    | error e => rfl
    | ok s' => exact hr s'

end Mirrors

end GlobReader

end EditHook
