import EditHook.Proofs.Declaring
import EditHook.Proofs.GlobOpening
import EditHook.Proofs.GlobSteps
import EditHook.Proofs.Placeholder

/-! Globs with a directory in front. The reader takes such a glob in as it does the glob alone, but that
stars which fill the first component take the separator behind the directory with them. -/

namespace EditHook

namespace GlobReader

/-- The pieces of a glob, last first, when it is read below a directory with the pieces `base`. -/
def below (base : List Piece) : List Piece → List Piece
  | [] => .literal '/' :: base
  | [p] => if p = .leading then .between :: base else p :: .literal '/' :: base
  | p :: q :: ps => p :: below base (q :: ps)

def groupsBelow (base : List Piece) : List OpenGroup → List OpenGroup
  | [] => []
  | [g] => [⟨below base g.outside, g.choices⟩]
  | g :: h :: gs => g :: groupsBelow base (h :: gs)

def State.below (base : List Piece) : State → State
  | ⟨mode, current, []⟩ => ⟨mode, GlobReader.below base current, []⟩
  | ⟨mode, current, g :: gs⟩ => ⟨mode, current, groupsBelow base (g :: gs)⟩

variable (base : List Piece) {s s' : State}

theorem below_cons {p : Piece} (h : p ≠ .leading) (ps : List Piece) :
    below base (p :: ps) = p :: below base ps := by
  cases ps with
  | nil => simp only [below, if_neg h]
  | cons q ps => rfl

theorem push_below {p : Piece} (h : p ≠ .leading) (s : State) :
    (s.below base).push p = (s.push p).below base := by
  obtain ⟨mode, current, groups⟩ := s
  cases groups with
  | nil => simp only [State.below, State.push, below_cons base h]
  | cons g gs => rfl

theorem next_below (s : State) (c : Char) : next (s.below base) c = next s c := by
  obtain ⟨mode, current, groups⟩ := s
  match groups with
  | [] => rfl
  | [_] => rfl
  | _ :: _ :: _ => rfl

theorem plainStep_below (s : State) (c : Char) :
    plainStep (s.below base) c = (plainStep s c).map (State.below base) := by
  obtain ⟨mode, current, groups⟩ := s
  unfold plainStep
  split
  · simp [push_below, Except.map]
  · cases groups <;> rfl
  · cases groups <;> rfl
  · cases groups <;> rfl
  · match groups with
    | [] => rfl
    | [g] => simp [State.below, groupsBelow, Except.map, below_cons]
    | g :: h :: gs => rfl
  · match groups with
    | [] => simp [State.below, State.push, Except.map, below_cons]
    | [g] => rfl
    | g :: h :: gs => rfl
  · simp [push_below, Except.map]

theorem wholeComponent?_below (ps : List Piece) {n : Next} (hn : n = .separator ∨ n = .other) :
    wholeComponent? (below base ps) n = (wholeComponent? ps n).map (below base) := by
  match ps with
  | [] => rcases hn with rfl | rfl <;> rfl
  | [p] =>
    by_cases hp : p = .leading
    · subst hp
      rcases hn with rfl | rfl <;> rfl
    · by_cases he : p.endsAtSeparator <;> rcases hn with rfl | rfl <;>
        simp [below, wholeComponent?, hp, he]
  | p :: q :: ps =>
    by_cases hp : p = .leading
    · subst hp
      rcases hn with rfl | rfl <;> rfl
    · by_cases he : p.endsAtSeparator <;> rcases hn with rfl | rfl <;>
        simp [below, wholeComponent?, hp, he]

theorem whole?_below (s : State) (c : Char) :
    whole? (s.below base) (next s c) = (whole? s (next s c)).map (State.below base) := by
  obtain ⟨mode, current, groups⟩ := s
  cases groups with
  | nil =>
    have hn : next ⟨mode, current, []⟩ c = .separator ∨ next ⟨mode, current, []⟩ c = .other := by
      simp only [next]
      split <;> simp
    simp only [whole?, State.below, wholeComponent?_below base current hn, Option.map_map]
    rfl
  | cons g gs =>
    simp only [whole?, State.below, Option.map_map]
    rfl

theorem mirrors_below : Mirrors (State.below base) (fun _ => True) where
  enter s mode := by
    obtain ⟨_, current, groups⟩ := s
    cases groups <;> rfl
  push s _ hp := push_below base hp s
  plainStep s c _ := plainStep_below base s c
  whole? s c _ := by rw [next_below, whole?_below]

def StarsOnly (s : State) (cs : List Char) : Prop :=
  ∀ stars, pending? s.mode = some stars → s.groups = [] → s.current = [] ∨ s.current = [.leading] →
    ∃ n, cs = starComponents n ++ stars ∧ (s.current = [] ↔ n = 0)

theorem plainStep_current {c : Char} (h : plainStep s c = .ok s') (hg : s'.groups = [])
    (hm : pending? s'.mode ≠ none) :
    (c = '*' ∧ s' = { s with mode := .star }) ∨ ∃ p ps, p ≠ .leading ∧ s'.current = p :: ps := by
  unfold plainStep at h
  split at h
  · cases h
    exact .inr ⟨_, _, by decide, rfl⟩
  · cases h
    exact .inl ⟨rfl, rfl⟩
  · cases h
    exact absurd rfl hm
  · cases h
    cases hg
  · split at h
    · cases h
    · cases h
      exact .inr ⟨_, _, by simp, rfl⟩
  · split at h
    · cases h
      exact .inr ⟨_, _, by decide, rfl⟩
    · cases h
      cases hg
  · cases h
    exact .inr ⟨_, _, by simp, rfl⟩

theorem starsOnly_of_cons {p : Piece} {ps : List Piece} (hp : p ≠ .leading)
    (h : s.current = p :: ps) (cs : List Char) : StarsOnly s cs := by
  intro stars _ _ hs
  rcases hs with hs | hs
  · simp [h] at hs
  · simp [h, hp] at hs

theorem plainStep_starsOnly {cs : List Char} {c : Char} (h : plainStep s c = .ok s')
    (hs : StarsOnly { s with mode := .plain } cs) : StarsOnly s' (cs ++ [c]) := by
  intro stars hm hg hc
  rcases plainStep_current h hg (by simp [hm]) with ⟨rfl, rfl⟩ | ⟨p, ps, hp, hcur⟩
  · cases hm
    obtain ⟨n, rfl, hn⟩ := hs [] rfl hg hc
    exact ⟨n, by simp, hn⟩
  · exact starsOnly_of_cons hp hcur _ stars hm hg hc

theorem wholeComponent?_current {ps ps' : List Piece}
    (h : wholeComponent? ps .separator = some ps') (hp : ps' = [] ∨ ps' = [.leading]) :
    ps' ≠ [] ∧ (ps = [] ∨ ps = [.leading]) := by
  cases ps with
  | nil =>
    cases h
    exact ⟨by simp, .inl rfl⟩
  | cons p ps =>
    obtain ⟨_, q, rfl, -, hq⟩ := wholeComponent?_cons_eq_some h
    rcases hp with hp | hp
    · cases hp
    · cases hp
      exact ⟨by simp, .inr (by simpa using hq)⟩

theorem groups_ne_nil_of_whole? {t : State} {c : Char} (hc : c ≠ '/')
    (h : whole? s (next s c) = some t) : t.groups ≠ [] := by
  obtain ⟨ps, hps, rfl⟩ := Option.map_eq_some_iff.mp h
  intro hg
  have hg : s.groups = [] := hg
  have hn : next s c = .other := by simp [next, hc, hg]
  rw [hn] at hps
  cases hcur : s.current with
  | nil => simp [hcur, wholeComponent?] at hps
  | cons p qs => simp [hcur, wholeComponent?] at hps

theorem memberStep_starsOnly {negated dash : Bool} {ranges : List (Char × Char)} {c : Char}
    (h : memberStep s negated ranges dash c = .ok s') (cs : List Char) : StarsOnly s' cs := by
  have entered : ∀ {mode}, pending? mode = none → s' = { s with mode := mode } →
      StarsOnly s' cs := by
    rintro mode hm rfl stars ht
    rw [hm] at ht
    cases ht
  unfold memberStep at h
  split at h
  · cases h
    exact entered rfl rfl
  · split at h
    · cases h
      exact starsOnly_of_cons (by simp) rfl cs
    · split at h
      · obtain ⟨extended, _, h⟩ := bind_eq_ok h
        cases h
        exact entered rfl rfl
      · split at h <;> cases h <;> exact entered rfl rfl

theorem doubleStarStep_starsOnly {cs : List Char} {c : Char} (hs : StarsOnly s cs)
    (hm : s.mode = .doubleStar) (h : doubleStarStep s c = .ok s') : StarsOnly s' (cs ++ [c]) := by
  rw [doubleStarStep_eq] at h
  split at h
  · exact plainStep_starsOnly h (starsOnly_of_cons (p := .star) (by decide) rfl _)
  · rename_i t ht
    split at h
    · rename_i hc
      subst hc
      cases h
      obtain ⟨ps, hps, rfl⟩ := Option.map_eq_some_iff.mp ht
      intro stars hp hg hcur
      cases hp
      obtain ⟨hne, hcur⟩ := wholeComponent?_current hps hcur
      obtain ⟨n, rfl, -⟩ := hs _ (by rw [hm]; rfl) hg hcur
      exact ⟨n + 1, by simp [starComponents_succ], by simp [hne]⟩
    · rename_i hc
      have hg : t.groups ≠ [] := groups_ne_nil_of_whole? hc ht
      exact plainStep_starsOnly h fun _ _ he => absurd he hg

theorem step_starsOnly {cs : List Char} {c : Char} (hs : StarsOnly s cs)
    (h : step s c = .ok s') : StarsOnly s' (cs ++ [c]) := by
  unfold step at h
  split at h
  · rename_i hm
    exact plainStep_starsOnly h (by rw [← hm]; exact hs)
  · rename_i hm
    split at h
    · rename_i hc
      cases h
      intro stars ht hg hcur
      cases ht
      obtain ⟨n, rfl, hn⟩ := hs _ (by rw [hm]; rfl) hg hcur
      exact ⟨n, by simp [hc], hn⟩
    · exact plainStep_starsOnly h (starsOnly_of_cons (p := .star) (by decide) rfl _)
  · rename_i hm
    exact doubleStarStep_starsOnly hs hm h
  · split at h
    · cases h
      intro stars ht
      cases ht
    · exact memberStep_starsOnly h _
  · exact memberStep_starsOnly h _

theorem run_starsOnly {cs : List Char} (h : run start cs = .ok s) : StarsOnly s cs := by
  have hs : StarsOnly start [] := by
    intro stars hm _ _
    cases hm
    exact ⟨0, rfl, by simp [start]⟩
  exact run_keeps step_starsOnly hs h

theorem below_ne_leading (ps : List Piece) : below base ps ≠ [.leading] := by
  match ps with
  | [] => simp [below]
  | [p] => by_cases hp : p = .leading <;> simp [below, hp]
  | p :: [q] => by_cases hq : q = .leading <;> simp [below, hq]
  | p :: q :: r :: ps => simp [below]

/-- The pieces of a glob below a directory, from those of the glob alone. -/
def placed (base ps : List Piece) : List Piece :=
  if ps = [.leading] then base.reverse ++ [.trailing] else (below base ps.reverse).reverse

theorem placed_reverse (ps : List Piece) (h : ps ≠ [.leading]) :
    placed base ps.reverse = (below base ps).reverse := by
  have hr : ps.reverse ≠ [.leading] := by simpa using h
  rw [placed, if_neg hr, List.reverse_reverse]

theorem lastStars_below (ps : List Piece) :
    (lastStars (below base ps)).reverse = placed base (lastStars ps).reverse := by
  match ps with
  | [] => simp [lastStars, below, wholeComponent?, placed]
  | [p] =>
    by_cases hl : p = .leading
    · subst hl
      simp [lastStars, below, wholeComponent?, placed]
    · by_cases he : p.endsAtSeparator <;>
        simp [lastStars, below, wholeComponent?, placed, hl, he]
  | p :: q :: ps =>
    have hne : lastStars (p :: q :: ps) ≠ [.leading] := by
      by_cases he : p.endsAtSeparator <;> simp [lastStars, wholeComponent?, he]
    rw [placed_reverse base _ hne]
    by_cases he : p.endsAtSeparator
    · simp [lastStars, below, wholeComponent?, he]
    · simp [lastStars, below, wholeComponent?, he]

theorem finish_below (h : ¬ (s.mode = .plain ∧ s.groups = [] ∧ s.current = [.leading])) :
    finish (s.below base) = (finish s).map (placed base) := by
  obtain ⟨mode, current, groups⟩ := s
  cases groups with
  | cons g gs =>
    have hne : groupsBelow base (g :: gs) ≠ [] := by cases gs <;> simp [groupsBelow]
    cases mode <;> simp [finish, State.below, Except.map, hne]
  | nil =>
    cases mode with
    | plain =>
      have hp := placed_reverse base current (by simpa using h)
      simp [finish, State.below, Except.map, hp]
    | star =>
      have hp := placed_reverse base (.star :: current) (by simp)
      rw [below_cons base (by simp)] at hp
      exact congrArg Except.ok hp.symm
    | doubleStar => exact congrArg Except.ok (lastStars_below base current)
    | classStart => rfl
    | members => rfl

end GlobReader

namespace Piece

theorem spells_below (base ps : List Piece) (w : List UInt8) :
    Spells (GlobReader.below base ps).reverse w ↔
      ∃ u v, w = u ++ 0x2F :: v ∧ Spells base.reverse u ∧ Spells ps.reverse v := by
  induction ps generalizing w with
  | nil =>
    simp only [GlobReader.below, List.reverse_cons, spells_concat, word_literal, List.reverse_nil,
      Spells]
    constructor
    · rintro ⟨u, _, rfl, hu, rfl⟩
      exact ⟨u, [], rfl, hu, rfl⟩
    · rintro ⟨u, _, rfl, hu, rfl⟩
      exact ⟨u, _, rfl, hu, rfl⟩
  | cons p ps ih =>
    by_cases hl : p = .leading ∧ ps = []
    · -- stars that led the glob stand between two components now
      obtain ⟨rfl, rfl⟩ := hl
      simp only [GlobReader.below, if_true, List.reverse_cons, spells_concat,
        word_between_iff_leading, List.reverse_nil, Spells]
      constructor
      · rintro ⟨u, _, rfl, hu, v, rfl, hv⟩
        exact ⟨u, v, rfl, hu, [], v, rfl, rfl, hv⟩
      · rintro ⟨u, _, rfl, hu, _, v, rfl, rfl, hv⟩
        exact ⟨u, _, rfl, hu, v, rfl, hv⟩
    · have hb : GlobReader.below base (p :: ps) = p :: GlobReader.below base ps := by
        cases ps with
        | nil => exact GlobReader.below_cons base (by simpa using hl) []
        | cons q ps => rfl
      simp only [hb, List.reverse_cons, spells_concat, ih]
      constructor
      · rintro ⟨_, x, rfl, ⟨u, v, rfl, hu, hv⟩, hx⟩
        exact ⟨u, v ++ x, by simp, hu, v, x, rfl, hv, hx⟩
      · rintro ⟨u, _, rfl, hu, v, x, rfl, hv, hx⟩
        exact ⟨u ++ 0x2F :: v, x, by simp, ⟨u, v, rfl, hu, hv⟩, hx⟩

end Piece

namespace Glob

variable {name : String} {g : Glob}

def namePieces (name : String) : List Piece :=
  (name.toList.map .literal).reverse

theorem utf8_below (name p : String) : utf8 (name ++ "/" ++ p) = utf8 name ++ 0x2F :: utf8 p := by
  simp only [utf8, String.toList_append, List.flatMap_append, List.append_assoc]
  rfl

theorem exists_below {path : String} {v : List UInt8} (h : utf8 path = utf8 name ++ 0x2F :: v) :
    ∃ p, path = name ++ "/" ++ p ∧ utf8 p = v := by
  have hp : (name.toList ++ ['/']).flatMap String.utf8EncodeChar <+: utf8 path := by
    rw [h, List.flatMap_append]
    exact ⟨v, by rw [List.append_assoc]; rfl⟩
  have hb := prefix_of_encode_prefix hp
  obtain ⟨p, rfl⟩ := Root.below_iff.mpr hb
  rw [utf8_below, List.append_right_inj] at h
  exact ⟨p, rfl, (List.cons.inj h).2⟩

theorem accepts_placed (path : String) :
    (Glob.mk (GlobReader.placed (namePieces name) g.pieces)).accepts path = true ↔
      ∃ p, path = name ++ "/" ++ p ∧ g.accepts p = true := by
  have hname (u : List UInt8) : Piece.Spells (namePieces name).reverse u ↔ u = utf8 name := by
    rw [namePieces, List.reverse_reverse]
    exact Piece.spells_literals name.toList u
  simp only [accepts_iff, GlobReader.placed]
  by_cases hl : g.pieces = [.leading]
  -- stars alone take everything, and below a directory everything in it
  · have hne : (namePieces name).reverse ++ [Piece.trailing] ≠ [.leading] := by
      intro he
      have hm : Piece.trailing ∈ [Piece.leading] := he ▸ List.mem_append_right _ (by simp)
      simp at hm
    rw [if_pos hl]
    simp only [hne, hl, false_or, true_or, and_true, Piece.spells_concat, hname,
      Piece.word_trailing_iff]
    constructor
    · rintro ⟨_, _, hw, rfl, v, rfl⟩
      obtain ⟨p, hp, _⟩ := exists_below hw
      exact ⟨p, hp⟩
    · rintro ⟨p, rfl⟩
      exact ⟨_, _, utf8_below name p, rfl, utf8 p, rfl⟩
  · have hne : (GlobReader.below (namePieces name) g.pieces.reverse).reverse ≠ [.leading] := by
      intro he
      exact GlobReader.below_ne_leading _ _ (List.reverse_eq_cons_iff.mp he)
    rw [if_neg hl]
    simp only [hne, hl, false_or, Piece.spells_below, hname, List.reverse_reverse]
    constructor
    · rintro ⟨_, v, hw, rfl, hv⟩
      obtain ⟨p, hp, rfl⟩ := exists_below hw
      exact ⟨p, hp, hv⟩
    · rintro ⟨p, rfl, hp⟩
      exact ⟨_, utf8 p, utf8_below name p, rfl, hp⟩

theorem compile_below (name : String) (hn : ∀ c ∈ name.toList, GlobReader.Plain c) {glob : String}
    (hg : ∀ n, glob.toList ≠ GlobReader.starComponents (n + 1)) :
    compile (name ++ "/" ++ glob) =
      (compile glob).map fun g => ⟨GlobReader.placed (namePieces name) g.pieces⟩ := by
  have ht : (name ++ "/" ++ glob).toList = (name.toList ++ ['/']) ++ glob.toList := by simp
  have hp : ∀ c ∈ name.toList ++ ['/'], GlobReader.Plain c := by
    intro c hc
    rcases List.mem_append.mp hc with hc | hc
    · exact hn c hc
    · rw [List.mem_singleton.mp hc]
      decide
  have hs : GlobReader.run GlobReader.start (name ++ "/" ++ glob).toList =
      (GlobReader.run GlobReader.start glob.toList).map (.below (namePieces name)) := by
    rw [ht, GlobReader.start, GlobReader.run_plain hp]
    refine Eq.trans ?_ ((GlobReader.mirrors_below (namePieces name)).run
      (fun _ _ => trivial) GlobReader.start)
    simp [GlobReader.State.below, GlobReader.below, GlobReader.start, namePieces]
  rw [compile, compile, hs]
  cases hr : GlobReader.run GlobReader.start glob.toList with
  | error e => rfl
  | ok s =>
    have hne : ¬ (s.mode = .plain ∧ s.groups = [] ∧ s.current = [.leading]) := by
      rintro ⟨hm, hgr, hc⟩
      obtain ⟨n, hn, h0⟩ := GlobReader.run_starsOnly hr [] (by rw [hm]; rfl) hgr (.inr hc)
      cases n with
      | zero => simp [hc] at h0
      | succ n => exact hg n (by simpa using hn)
    have hf := GlobReader.finish_below (namePieces name) hne
    simp only [Except.map, bind, Except.bind]
    rw [hf]
    cases GlobReader.finish s <;> rfl

theorem compiles_below_iff (hn : ∀ c ∈ name.toList, GlobReader.Plain c) {glob : String}
    (hg : ∀ n, glob.toList ≠ GlobReader.starComponents (n + 1)) :
    (∃ g, compile (name ++ "/" ++ glob) = .ok g) ↔ ∃ g, compile glob = .ok g := by
  rw [compile_below name hn hg]
  cases compile glob <;> simp [Except.map]

theorem accepts_below_iff (hn : ∀ c ∈ name.toList, GlobReader.Plain c) {glob : String}
    (hg : ∀ n, glob.toList ≠ GlobReader.starComponents (n + 1)) {g' : Glob}
    (h : compile glob = .ok g) (h' : compile (name ++ "/" ++ glob) = .ok g') (path : String) :
    g'.accepts path = true ↔ ∃ p, path = name ++ "/" ++ p ∧ g.accepts p = true := by
  rw [compile_below name hn hg, h] at h'
  cases h'
  exact accepts_placed path

end Glob

/-- Globs and rules below a directory do there what they do without it. Components of two stars with
nothing behind them are left out: alone they take every path, below a directory only those that end in
a separator. -/
theorem rules_below_directory (name : String) (hn : ∀ c ∈ name.toList, GlobReader.Plain c) :
    (∀ glob : String, (∀ n, glob.toList ≠ GlobReader.starComponents (n + 1)) →
      ((∃ g, Glob.compile ((Root.dir name).qualify glob) = .ok g) ↔
        ∃ g, Glob.compile glob = .ok g) ∧
      ∀ g g', Glob.compile glob = .ok g → Glob.compile ((Root.dir name).qualify glob) = .ok g' →
        ∀ path, g'.accepts path = true ↔ ∃ p, path = name ++ "/" ++ p ∧ g.accepts p = true) ∧
    ∀ (text rootText rootText' : String) (n : Node),
      (∀ globs, n.Arguments globs → ∀ glob ∈ globs, ∀ k,
        glob.toList ≠ GlobReader.starComponents (k + 1)) →
      ((∃ r, n.rule text (.dir name) rootText' = .ok r) ↔
        ∃ r, n.rule text .repository rootText = .ok r) ∧
      ∀ r r', n.rule text .repository rootText = .ok r →
        n.rule text (.dir name) rootText' = .ok r' →
        r'.commands = r.commands ∧ r'.line = r.line ∧
        ∀ p, r'.pattern.accepts (name ++ "/" ++ p) = r.pattern.accepts p := by
  refine ⟨fun glob hg => ⟨Glob.compiles_below_iff hn hg, fun g g' h h' =>
    Glob.accepts_below_iff hn hg h h'⟩, fun text rootText rootText' n hall => ⟨?_, ?_⟩⟩
  · simp only [Node.rule_eq_ok_iff, ← Node.isPattern_iff text]
    constructor
    · rintro ⟨hname, ⟨globs, hne, ht, hc⟩, hb⟩
      exact ⟨hname, ⟨globs, hne, ht, fun glob hm =>
        (Glob.compiles_below_iff hn (hall globs ht glob hm)).mp (hc glob hm)⟩, hb⟩
    · rintro ⟨hname, ⟨globs, hne, ht, hc⟩, hb⟩
      exact ⟨hname, ⟨globs, hne, ht, fun glob hm =>
        (Glob.compiles_below_iff hn (hall globs ht glob hm)).mpr (hc glob hm)⟩, hb⟩
  · intro r r' hr hr'
    rw [Node.rule_eq_ok_iff] at hr hr'
    refine ⟨hr'.commands_eq hr, hr'.line.trans hr.line.symm, fun p => ?_⟩
    obtain ⟨globs, ht, _, _⟩ := hr.arguments
    rw [Bool.eq_iff_iff, hr.accepts_iff ht, hr'.accepts_iff ht]
    constructor
    · rintro ⟨glob, hm, g', hg', ha⟩
      have hg := hall _ ht glob hm
      obtain ⟨g, h⟩ := (Glob.compiles_below_iff hn hg).mp ⟨g', hg'⟩
      obtain ⟨p', hp, ha⟩ := (Glob.accepts_below_iff hn hg h hg' _).mp ha
      obtain rfl : p = p' := (String.append_right_inj _).mp hp
      exact ⟨glob, hm, g, h, ha⟩
    · rintro ⟨glob, hm, g, h, ha⟩
      have hg := hall _ ht glob hm
      obtain ⟨g', hg'⟩ := (Glob.compiles_below_iff hn hg).mpr ⟨g, h⟩
      exact ⟨glob, hm, g', hg', (Glob.accepts_below_iff hn hg h hg' _).mpr ⟨p, rfl, ha⟩⟩

def starredNode : Node :=
  ⟨0, "pattern", [⟨none, .text "**/[a-c]*.\x7bts,vue\x7d"⟩],
    some [⟨30, "run", [⟨none, .text "lint"⟩, ⟨none, .text "$@"⟩], none⟩]⟩

theorem rules_below_web :
    (∀ c ∈ "web".toList, GlobReader.Plain c) ∧
    (∃ g g', Glob.compile "**/[a-c]*.\x7bts,vue\x7d" = .ok g ∧
      Glob.compile "web/**/[a-c]*.\x7bts,vue\x7d" = .ok g' ∧
      ∀ path, g'.accepts path = true ↔ ∃ p, path = "web" ++ "/" ++ p ∧ g.accepts p = true) ∧
    ∃ r r', starredNode.rule "" .repository "/" = .ok r ∧
      starredNode.rule "" (.dir "web") "web" = .ok r' ∧
      ∀ p, r'.pattern.accepts ("web" ++ "/" ++ p) = r.pattern.accepts p := by
  have hn : ∀ c ∈ "web".toList, GlobReader.Plain c := by simp [GlobReader.Plain]
  have hg : ∀ k, "**/[a-c]*.\x7bts,vue\x7d".toList ≠ GlobReader.starComponents (k + 1) := by
    intro k h
    have hl := congrArg List.getLast? h
    simp [GlobReader.starComponents_succ] at hl
  have ha : ∀ globs, starredNode.Arguments globs → ∀ glob ∈ globs, ∀ k,
      glob.toList ≠ GlobReader.starComponents (k + 1) := by
    intro globs h glob hm
    obtain rfl : globs = ["**/[a-c]*.\x7bts,vue\x7d"] := Node.arguments_inj h rfl
    rw [List.mem_singleton.mp hm]
    exact hg
  have hh := rules_below_directory "web" hn
  exact ⟨hn, ⟨_, _, rfl, rfl, (hh.1 _ hg).2 _ _ rfl rfl⟩,
    _, _, rfl, rfl, ((hh.2 "" "/" "web" starredNode ha).2 _ _ rfl rfl).2.2⟩

end EditHook
