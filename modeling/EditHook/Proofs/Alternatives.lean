import EditHook.Proofs.GlobBelow

/-! Globs side by side in braces. While a group is open the reader goes through a glob without braces
and commas as it does through the glob alone, so a group takes what any of its globs takes. -/

namespace EditHook

namespace GlobReader

/-- A character that means nothing to an open group. -/
def Loose (c : Char) : Prop :=
  c ∉ ['\x7b', '\x7d', ',']

instance (c : Char) : Decidable (Loose c) :=
  inferInstanceAs (Decidable (_ ∉ _))

def State.among (groups : List OpenGroup) (s : State) : State :=
  { s with groups := groups }

variable {s s' : State} {pieces : List Piece} {g : OpenGroup} {outer : List OpenGroup} {c : Char}

theorem next_among (hc : Loose c) (groups : List OpenGroup) (s : State) :
    next (s.among groups) c = next s c := by
  simp only [Loose, List.mem_cons, not_or] at hc
  simp [next, hc]

theorem plainStep_among (hc : Loose c) (groups : List OpenGroup) (s : State) :
    plainStep (s.among groups) c = (plainStep s c).map (.among groups) := by
  unfold plainStep
  split
  · rfl
  · rfl
  · rfl
  · exact absurd hc (by decide)
  · exact absurd hc (by decide)
  · exact absurd hc (by decide)
  · rfl

theorem mirrors_among (groups : List OpenGroup) : Mirrors (.among groups) Loose where
  enter _ _ := rfl
  push _ _ _ := rfl
  plainStep s _ hc := plainStep_among hc groups s
  whole? s c hc := by
    rw [next_among hc, whole?, whole?, Option.map_map]
    rfl

theorem wholeComponent?_choiceEnd {ps : List Piece} (h : ps ≠ []) :
    wholeComponent? ps .choiceEnd = wholeComponent? ps .textEnd := by
  cases ps with
  | nil => exact absurd rfl h
  | cons p ps => rfl

theorem step_choiceEnd {stars : List Char} (hm : pending? s.mode = some stars) (hne : s.current ≠ [])
    (hc : c = ',' ∨ c = '\x7d') (g : OpenGroup) (outer : List OpenGroup) :
    step (s.among (g :: outer)) c = plainStep ⟨.plain, settled s, g :: outer⟩ c := by
  have hs : c ≠ '*' := by rintro rfl; simp at hc
  have hsl : c ≠ '/' := by rintro rfl; simp at hc
  obtain ⟨mode, current, groups⟩ := s
  cases mode with
  | plain => rfl
  | star => simp [State.among, step, settled, hs, State.push]
  | doubleStar =>
    have hn : next ⟨.doubleStar, current, g :: outer⟩ c = .choiceEnd := by
      simp [next, hsl, hc]
    simp only [State.among, step, settled, doubleStarStep, hn, wholeComponent?_choiceEnd hne,
      lastStars]
    cases wholeComponent? current .textEnd with
    | none => rfl
    | some ps => simp [hsl]
  | classStart => cases hm
  | members => cases hm

def Textual (s : State) : Prop :=
  ∀ p ∈ s.current, p.shape ≠ none

theorem Textual.push (h : Textual s) {p : Piece} (hp : p.shape ≠ none) : Textual (s.push p) :=
  List.forall_mem_cons.mpr ⟨hp, h⟩

theorem plainStep_textual (hc : Loose c) (hs : Textual s) (h : plainStep s c = .ok s') :
    Textual s' := by
  unfold plainStep at h
  split at h
  · cases h
    exact hs.push (by simp [Piece.shape])
  · cases h
    exact hs
  · cases h
    exact hs
  · exact absurd hc (by decide)
  · exact absurd hc (by decide)
  · exact absurd hc (by decide)
  · cases h
    exact hs.push (by simp [Piece.shape])

theorem whole?_textual {n : Next} (hs : Textual s) (h : whole? s n = some s') : Textual s' := by
  obtain ⟨ps, hps, rfl⟩ := Option.map_eq_some_iff.mp h
  intro p hp
  cases hcur : s.current with
  | nil =>
    rw [hcur] at hps
    cases n <;> cases hps <;> simp_all [Piece.shape]
  | cons q qs =>
    rw [hcur] at hps
    have hqs : ∀ p ∈ qs, p.shape ≠ none := fun p hp => hs p (hcur ▸ List.mem_cons_of_mem q hp)
    obtain ⟨_, r, rfl, hl, hr⟩ := wholeComponent?_cons_eq_some hps
    rcases List.mem_cons.mp hp with rfl | hp
    · by_cases hq : q = .leading
      · simp [hl hq, Piece.shape]
      · rcases hr hq with rfl | rfl <;> simp [Piece.shape]
    · exact hqs p hp

theorem step_textual (hc : Loose c) (hs : Textual s) (h : step s c = .ok s') : Textual s' := by
  have hstar : Piece.star.shape ≠ none := by simp [Piece.shape]
  have hmember {negated ranges dash} (h : memberStep s negated ranges dash c = .ok s') :
      Textual s' := by
    unfold memberStep at h
    split at h
    · cases h
      exact hs
    · split at h
      · cases h
        exact hs.push (by simp [Piece.shape])
      · split at h
        · obtain ⟨extended, _, h⟩ := bind_eq_ok h
          cases h
          exact hs
        · split at h <;> cases h <;> exact hs
  unfold step at h
  split at h
  · exact plainStep_textual hc hs h
  · split at h
    · cases h
      exact hs
    · exact plainStep_textual hc (hs.push hstar) h
  · rw [doubleStarStep_eq] at h
    split at h
    · exact plainStep_textual hc ((hs.push hstar).push hstar) h
    · rename_i t ht
      have hs := whole?_textual hs ht
      split at h
      · cases h
        exact hs
      · exact plainStep_textual hc hs h
  · split at h
    · cases h
      exact hs
    · exact hmember h
  · exact hmember h

theorem run_textual {cs : List Char} (hc : ∀ c ∈ cs, Loose c) (h : run start cs = .ok s) :
    Textual s := by
  have hk : (∀ c ∈ [] ++ cs, Loose c) → Textual s := by
    refine run_keeps (P := fun s ds => (∀ c ∈ ds, Loose c) → Textual s) ?_ ?_ h
    · intro s s' ds c hs hstep hall
      have hall : (∀ d ∈ ds, Loose d) ∧ Loose c := by simpa [or_imp, forall_and] using hall
      exact step_textual hall.2 (hs hall.1) hstep
    · intro _ p hp
      simp [start] at hp
  exact hk hc

theorem settled_textual (h : Textual s) : ∀ p ∈ settled s, p.shape ≠ none := by
  have hstar : Piece.star.shape ≠ none := by simp [Piece.shape]
  unfold settled
  split
  · exact h.push hstar
  · rw [lastStars]
    cases hw : wholeComponent? s.current .textEnd with
    | none => exact (h.push hstar).push hstar
    | some ps =>
      have hs : whole? s .textEnd = some ⟨.plain, ps, s.groups⟩ := by
        rw [whole?, hw]
        rfl
      exact whole?_textual h hs
  · exact h

theorem lastStars_cons_ne (p : Piece) (ps : List Piece) :
    lastStars (p :: ps) ≠ [] ∧ (lastStars (p :: ps) = [.leading] → p :: ps = [.leading]) := by
  rw [lastStars]
  cases hw : wholeComponent? (p :: ps) .textEnd with
  | none => simp
  | some qs =>
    obtain ⟨_, q, rfl, -, hq⟩ := wholeComponent?_cons_eq_some hw
    refine ⟨by simp, fun h => ?_⟩
    cases h
    simpa using hq

theorem settled_ne (hne : s.current ≠ []) (hl : s.current ≠ [.leading]) :
    settled s ≠ [] ∧ settled s ≠ [.leading] := by
  unfold settled
  split
  · simp
  · obtain ⟨p, ps, hp⟩ := List.exists_cons_of_ne_nil hne
    rw [hp] at hl ⊢
    obtain ⟨hn, hs⟩ := lastStars_cons_ne p ps
    exact ⟨hn, fun h => hl (hs h)⟩
  · exact ⟨hne, hl⟩

theorem mem_starComponents {n : Nat} (h : c ∈ starComponents n) : c = '*' ∨ c = '/' := by
  simp only [starComponents, List.mem_flatten, List.mem_replicate] at h
  obtain ⟨cs, ⟨-, rfl⟩, hc⟩ := h
  simpa using hc

end GlobReader

/-- A glob that may stand in braces: without braces and commas, and with more than stars and
separators in it. -/
structure Choice (text : String) (g : Glob) : Prop where
  loose : ∀ c ∈ text.toList, GlobReader.Loose c
  named : ∃ c ∈ text.toList, c ≠ '*' ∧ c ≠ '/'
  compiles : Glob.compile text = .ok g

namespace Choice

variable {text : String} {g : Glob}

theorem not_starComponents (h : Choice text g) (stars : List Char) (hs : ∀ c ∈ stars, c = '*')
    (n : Nat) : text.toList ≠ GlobReader.starComponents n ++ stars := by
  intro he
  obtain ⟨c, hc, hne⟩ := h.named
  rcases List.mem_append.mp (he ▸ hc) with hc | hc
  · rcases GlobReader.mem_starComponents hc with hc | hc
    · exact hne.1 hc
    · exact hne.2 hc
  · exact hne.1 (hs c hc)

theorem exists_state (h : Choice text g) :
    ∃ s, GlobReader.run GlobReader.start text.toList = .ok s ∧
      (∃ stars, GlobReader.pending? s.mode = some stars) ∧
      s.current ≠ [] ∧ s.current ≠ [.leading] ∧ g.pieces = (GlobReader.settled s).reverse := by
  obtain ⟨s, hs, hf⟩ := GlobReader.compile_eq_ok_iff.mp h.compiles
  obtain ⟨hg, ⟨stars, hm⟩, hp⟩ := GlobReader.finish_eq_ok hf
  have hall : ∀ c ∈ stars, c = '*' := by
    cases hmode : s.mode <;> rw [hmode] at hm <;> cases hm <;> simp
  -- otherwise all of the text is components of two stars
  have hc : ¬ (s.current = [] ∨ s.current = [.leading]) := by
    intro hc
    obtain ⟨n, hn, -⟩ := GlobReader.run_starsOnly hs stars hm hg hc
    exact h.not_starComponents _ hall n hn
  exact ⟨s, hs, ⟨stars, hm⟩, (not_or.mp hc).1, (not_or.mp hc).2, hp⟩

theorem pieces_ne (h : Choice text g) : g.pieces ≠ [.leading] := by
  obtain ⟨s, -, -, hne, hl, hp⟩ := h.exists_state
  have hs := (GlobReader.settled_ne hne hl).2
  rw [hp]
  simpa using hs

theorem exists_shape (h : Choice text g) : ∃ s, Piece.sequence g.pieces = some s := by
  obtain ⟨s, hs, -, hne, hl, hp⟩ := h.exists_state
  have hall := GlobReader.settled_textual (GlobReader.run_textual h.loose hs)
  have hnil : g.pieces ≠ [] := by
    rw [hp]
    simpa using (GlobReader.settled_ne hne hl).1
  obtain ⟨p, ps, hps⟩ := List.exists_cons_of_ne_nil hnil
  have hm : p ∈ GlobReader.settled s := by
    have hm : p ∈ g.pieces := hps ▸ List.mem_cons_self
    simpa [hp] using hm
  cases hsh : p.shape with
  | none => exact absurd hsh (hall p hm)
  | some s => cases hr : Piece.sequence ps <;> simp [hps, Piece.sequence, hsh, hr]

theorem run_eq (h : Choice text g) (o : GlobReader.OpenGroup) (outer : List GlobReader.OpenGroup)
    {c : Char} (hc : c = ',' ∨ c = '\x7d') (rest : List Char) :
    GlobReader.run ⟨.plain, [], o :: outer⟩ (text.toList ++ c :: rest) =
      GlobReader.plainStep ⟨.plain, g.pieces.reverse, o :: outer⟩ c >>= (GlobReader.run · rest) := by
  obtain ⟨s, hs, ⟨stars, hm⟩, hne, -, hp⟩ := h.exists_state
  have hr := (GlobReader.mirrors_among (o :: outer)).run h.loose GlobReader.start
  rw [hs] at hr
  rw [GlobReader.run_append, hp, List.reverse_reverse]
  refine (congrArg (· >>= fun s' => GlobReader.run s' (c :: rest)) hr).trans ?_
  have hstep := GlobReader.step_choiceEnd hm hne hc o outer
  simp only [Except.map, GlobReader.run, List.foldlM_cons, ← hstep]
  rfl

end Choice

namespace Piece

theorem choice_eq_none_iff (shapes : List Shape) : choice shapes = none ↔ shapes = [] := by
  cases shapes with
  | nil => simp [choice]
  | cons s ss => cases h : choice ss <;> simp [choice, h]

theorem choice_denotes {shapes : List Shape} {s : Shape} (h : choice shapes = some s)
    (w : List UInt8) : s.Denotes w ↔ ∃ x ∈ shapes, x.Denotes w := by
  induction shapes generalizing s with
  | nil => cases h
  | cons x xs ih =>
    rw [choice] at h
    cases hr : choice xs with
    | none =>
      rw [hr] at h
      cases h
      simp [(choice_eq_none_iff xs).mp hr]
    | some rest =>
      rw [hr] at h
      cases h
      simp [Shape.Denotes, ih hr]

end Piece

namespace Glob

variable {globs : List String} {gs : List Glob}

def shapes (gs : List Glob) : List Shape :=
  gs.filterMap (Piece.sequence ·.pieces)

theorem withCurrent_pieces (g : Glob) (done : List Shape) :
    (GlobReader.withCurrent done g.pieces.reverse).reverse = done.reverse ++ shapes [g] := by
  rw [GlobReader.withCurrent, List.reverse_reverse]
  cases h : Piece.sequence g.pieces <;> simp [shapes, h]

theorem run_choices (h : List.Forall₂ Choice globs gs) (hne : globs ≠ []) (done : List Shape) :
    GlobReader.run ⟨.plain, [], [⟨[], done⟩]⟩ ((",".intercalate globs).toList ++ ['\x7d']) =
      .ok ⟨.plain, [.group (Piece.choice (done.reverse ++ shapes gs))], []⟩ := by
  induction h generalizing done with
  | nil => exact absurd rfl hne
  | @cons glob g globs gs hg hgs ih =>
    cases globs with
    | nil =>
      cases hgs
      have hr := hg.run_eq ⟨[], done⟩ [] (.inr rfl) []
      simp only [String.toList_intercalate, List.map_cons, List.map_nil, List.intercalate_singleton]
      rw [hr, ← withCurrent_pieces]
      rfl
    | cons glob' globs =>
      have hr := hg.run_eq ⟨[], done⟩ [] (.inl rfl)
        ((",".intercalate (glob' :: globs)).toList ++ ['\x7d'])
      have hd := ih (by simp) (GlobReader.withCurrent done g.pieces.reverse)
      have hs : shapes (g :: gs) = shapes [g] ++ shapes gs := List.filterMap_append (l := [g])
      have hc : GlobReader.plainStep ⟨.plain, g.pieces.reverse, [⟨[], done⟩]⟩ ',' =
          .ok ⟨.plain, [], [⟨[], GlobReader.withCurrent done g.pieces.reverse⟩]⟩ := rfl
      rw [withCurrent_pieces, List.append_assoc, ← hs] at hd
      rw [hc] at hr
      rw [← hd]
      simp only [String.toList_intercalate, List.map_cons, List.intercalate_cons_cons] at hr ⊢
      simpa [bind, Except.bind] using hr

def braces (globs : List String) : String :=
  "\x7b" ++ ",".intercalate globs ++ "\x7d"

theorem compile_braces (h : List.Forall₂ Choice globs gs) (hne : globs ≠ []) :
    compile (braces globs) = .ok ⟨[.group (Piece.choice (shapes gs))]⟩ := by
  refine GlobReader.compile_eq_ok_iff.mpr
    ⟨⟨.plain, [.group (Piece.choice (shapes gs))], []⟩, ?_, rfl⟩
  have ht : (braces globs).toList = '\x7b' :: ((",".intercalate globs).toList ++ ['\x7d']) := by
    simp [braces]
  rw [ht]
  exact run_choices h hne []

theorem accepts_choice {glob : String} {g : Glob} (h : Choice glob g) (path : String) :
    g.accepts path = true ↔ ∃ s, Piece.sequence g.pieces = some s ∧ s.Denotes (utf8 path) := by
  obtain ⟨s, hs⟩ := h.exists_shape
  have hw := Piece.sequence_spells g.pieces (utf8 path)
  rw [hs] at hw
  simp only [accepts_iff, h.pieces_ne, false_or, ← hw]
  simp [hs]

theorem accepts_braces {g' : Glob} (h : List.Forall₂ Choice globs gs) (hne : globs ≠ [])
    (hg : compile (braces globs) = .ok g') (path : String) :
    g'.accepts path = true ↔ ∃ g ∈ gs, g.accepts path = true := by
  rw [compile_braces h hne] at hg
  cases hg
  have hchoice : ∀ g ∈ gs, ∃ glob, Choice glob g := fun g hm =>
    (exists_of_mem_right h hm).imp fun _ hg => hg.2
  have hs : shapes gs ≠ [] := by
    cases h with
    | nil => exact absurd rfl hne
    | cons hg _ =>
      obtain ⟨s, hs⟩ := hg.exists_shape
      simp [shapes, hs]
  cases hc : Piece.choice (shapes gs) with
  | none => exact absurd ((Piece.choice_eq_none_iff _).mp hc) hs
  | some shape =>
    have hw : Piece.Spells [.group (some shape)] (utf8 path) ↔ shape.Denotes (utf8 path) := by
      simp [Piece.Spells, Piece.Word, Piece.shape]
    simp only [accepts_iff, hw, Piece.choice_denotes hc]
    simp only [shapes, List.mem_filterMap]
    constructor
    · rintro (he | ⟨s, ⟨g, hm, hs⟩, hd⟩)
      · simp at he
      · obtain ⟨glob, hg⟩ := hchoice g hm
        exact ⟨g, hm, (accepts_iff g path).mp ((accepts_choice hg path).mpr ⟨s, hs, hd⟩)⟩
    · rintro ⟨g, hm, ha⟩
      obtain ⟨glob, hg⟩ := hchoice g hm
      obtain ⟨s, hs, hd⟩ := (accepts_choice hg path).mp ((accepts_iff g path).mpr ha)
      exact .inr ⟨s, ⟨g, hm, hs⟩, hd⟩

end Glob

namespace Root

/-- The paths that a glob accepts when this root is in front of it. -/
def Accepts (g : Glob) (path : String) : Root → Prop
  | repository => g.accepts path = true
  | dir name => ∃ p, path = name ++ "/" ++ p ∧ g.accepts p = true

/-- The globs that mean the same under any root. -/
def Movable (glob : String) : Prop :=
  ∀ n, glob.toList ≠ GlobReader.starComponents (n + 1)

variable {root : Root} {glob : String} {g g' : Glob}

theorem compiles_qualify (hroot : ∀ name, root = dir name → ∀ c ∈ name.toList, GlobReader.Plain c)
    (hm : Movable glob) (h : Glob.compile glob = .ok g) :
    ∃ g', Glob.compile (root.qualify glob) = .ok g' := by
  cases root with
  | repository => exact ⟨g, h⟩
  | dir name => exact (Glob.compiles_below_iff (hroot name rfl) hm).mpr ⟨g, h⟩

theorem accepts_qualify_iff
    (hroot : ∀ name, root = dir name → ∀ c ∈ name.toList, GlobReader.Plain c) (hm : Movable glob)
    (h : Glob.compile glob = .ok g) (h' : Glob.compile (root.qualify glob) = .ok g')
    (path : String) : g'.accepts path = true ↔ root.Accepts g path := by
  cases root with
  | repository =>
    obtain rfl : g = g' := by simpa [Root.qualify, h] using h'
    rfl
  | dir name => exact Glob.accepts_below_iff (hroot name rfl) hm h h' path

theorem accepts_exists_iff {gs : List Glob}
    (h : ∀ path, g.accepts path = true ↔ ∃ x ∈ gs, x.accepts path = true) (path : String) :
    root.Accepts g path ↔ ∃ x ∈ gs, root.Accepts x path := by
  cases root with
  | repository => exact h path
  | dir name =>
    simp only [Accepts, h]
    constructor
    · rintro ⟨p, hp, x, hx, ha⟩
      exact ⟨x, hx, p, hp, ha⟩
    · rintro ⟨x, hx, p, hp, ha⟩
      exact ⟨p, hp, x, hx, ha⟩

end Root

theorem Choice.movable {glob : String} {g : Glob} (h : Choice glob g) : Root.Movable glob := by
  intro n he
  exact h.not_starComponents [] (by simp) (n + 1) (by simpa using he)

theorem movable_braces (globs : List String) : Root.Movable (Glob.braces globs) := by
  intro n he
  have hm : '\x7b' ∈ GlobReader.starComponents (n + 1) := by
    rw [← he]
    simp [Glob.braces]
  have hc := GlobReader.mem_starComponents hm
  simp at hc

theorem Node.DeclaresRule.accepts_choices {root : Root} {text : String} {n : Node} {r : Rule}
    {globs : List String} {gs : List Glob}
    (hroot : ∀ name, root = .dir name → ∀ c ∈ name.toList, GlobReader.Plain c)
    (h : n.DeclaresRule text root r) (ht : n.Arguments globs)
    (hg : List.Forall₂ (fun glob g => Root.Movable glob ∧ Glob.compile glob = .ok g) globs gs)
    (path : String) : r.pattern.accepts path = true ↔ ∃ g ∈ gs, root.Accepts g path := by
  rw [h.accepts_iff ht]
  constructor
  · rintro ⟨glob, hm, g', hg', ha⟩
    obtain ⟨g, hm, hmov, hc⟩ := exists_of_mem_right hg.flip hm
    exact ⟨g, hm, (Root.accepts_qualify_iff hroot hmov hc hg' path).mp ha⟩
  · rintro ⟨g, hm, ha⟩
    obtain ⟨glob, hm, hmov, hc⟩ := exists_of_mem_right hg hm
    obtain ⟨g', hg'⟩ := Root.compiles_qualify hroot hmov hc
    exact ⟨glob, hm, g', hg', (Root.accepts_qualify_iff hroot hmov hc hg' path).mpr ha⟩

theorem Node.DeclaresRule.pattern_of_one {root : Root} {text glob : String} {n : Node} {r : Rule}
    (h : n.DeclaresRule text root r) (ht : n.Arguments [glob]) : ∃ g, r.pattern = .single g := by
  obtain ⟨ss, hs, hp, _⟩ := h.arguments
  have hl := congrArg List.length (Node.arguments_inj hs ht)
  cases hr : r.pattern with
  | single g => exact ⟨g, rfl⟩
  | anyOf gs =>
    rw [hr] at hp
    obtain ⟨rfl, htwo⟩ := hp
    simp at hl
    omega

theorem Node.DeclaresRule.pattern_of_two {root : Root} {text : String} {n : Node} {r : Rule}
    {globs : List String} (h : n.DeclaresRule text root r) (ht : n.Arguments globs)
    (htwo : 2 ≤ globs.length) : ∃ gs, r.pattern = .anyOf gs := by
  obtain ⟨ss, hs, hp, _⟩ := h.arguments
  have hl := congrArg List.length (Node.arguments_inj hs ht)
  cases hr : r.pattern with
  | single g =>
    rw [hr] at hp
    obtain rfl : ss = [g] := hp
    simp at hl
    omega
  | anyOf gs => exact ⟨gs, rfl⟩

/-- Several globs of a rule are the choices of one glob in braces: both rules load, and they accept
the same paths. -/
theorem alternatives_agree (root : Root)
    (hroot : ∀ name, root = .dir name → ∀ c ∈ name.toList, GlobReader.Plain c) (globs : List String)
    (htwo : 2 ≤ globs.length)
    (hg : ∀ glob ∈ globs, (∃ g, Glob.compile glob = .ok g) ∧
      (∀ c ∈ glob.toList, GlobReader.Loose c) ∧ ∃ c ∈ glob.toList, c ≠ '*' ∧ c ≠ '/')
    (text rootText : String) (n m : Node) (hn : n.name = "pattern") (hm : m.name = "pattern")
    (hna : n.Arguments globs) (hma : m.Arguments [Glob.braces globs])
    (hnb : ∃ block, n.children = some block ∧ block ≠ [] ∧ ∀ x ∈ block, x.IsRun)
    (hmb : ∃ block, m.children = some block ∧ block ≠ [] ∧ ∀ x ∈ block, x.IsRun) :
    ∃ r r' gs g, n.rule text root rootText = .ok r ∧ m.rule text root rootText = .ok r' ∧
      r.pattern = .anyOf gs ∧ r'.pattern = .single g ∧
      ∀ path, r.pattern.accepts path = r'.pattern.accepts path := by
  have hne : globs ≠ [] := by
    rintro rfl
    simp at htwo
  obtain ⟨gs, hgs⟩ : ∃ gs, List.Forall₂ Choice globs gs := by
    refine exists_forall₂_iff.mpr fun glob hm => ?_
    obtain ⟨⟨g, hc⟩, hl, hs⟩ := hg glob hm
    exact ⟨g, hl, hs, hc⟩
  have hb := Glob.compile_braces hgs hne
  have hn' : n.IsPattern root := by
    refine ⟨hn, ⟨globs, hne, hna, fun glob hm => ?_⟩, hnb⟩
    obtain ⟨g, hg⟩ := exists_forall₂_iff.mp ⟨gs, hgs⟩ glob hm
    exact Root.compiles_qualify hroot hg.movable hg.compiles
  have hm' : m.IsPattern root := by
    refine ⟨hm, ⟨_, List.cons_ne_nil _ _, hma, fun glob hm => ?_⟩, hmb⟩
    rw [List.mem_singleton.mp hm]
    exact Root.compiles_qualify hroot (movable_braces globs) hb
  obtain ⟨r, hr⟩ := (Node.isPattern_iff text).mp hn'
  obtain ⟨r', hr'⟩ := (Node.isPattern_iff text).mp hm'
  obtain ⟨ss, hp⟩ : ∃ ss, r.pattern = .anyOf ss := hr.pattern_of_two hna htwo
  obtain ⟨s, hp'⟩ : ∃ s, r'.pattern = .single s := hr'.pattern_of_one hma
  refine ⟨r, r', ss, s, Node.rule_eq_ok_iff.mpr hr, Node.rule_eq_ok_iff.mpr hr', hp, hp',
    fun path => ?_⟩
  have ha := hr.accepts_choices hroot hna (hgs.imp fun glob g hg => ⟨hg.movable, hg.compiles⟩) path
  have ha' := hr'.accepts_choices hroot hma (.cons ⟨movable_braces globs, hb⟩ .nil) path
  rw [Bool.eq_iff_iff, ha, ha']
  simp only [List.mem_singleton, exists_eq_left]
  exact (Root.accepts_exists_iff (Glob.accepts_braces hgs hne hb) path).symm

def lintNode (globs : List String) : Node :=
  ⟨0, "pattern", globs.map (fun s => ⟨none, .text s⟩),
    some [⟨9, "run", [⟨none, .text "lint"⟩, ⟨none, .text "$@"⟩], none⟩]⟩

theorem alternatives_agree_in_web :
    let globs := ["src/**/*.ts", "**/[a-c]*.vue", "x/**"]
    2 ≤ globs.length ∧
    (∀ glob ∈ globs, (∃ g, Glob.compile glob = .ok g) ∧
      (∀ c ∈ glob.toList, GlobReader.Loose c) ∧ ∃ c ∈ glob.toList, c ≠ '*' ∧ c ≠ '/') ∧
    ∃ r r' gs g, (lintNode globs).rule "" (.dir "web") "web" = .ok r ∧
      (lintNode ["\x7bsrc/**/*.ts,**/[a-c]*.vue,x/**\x7d"]).rule "" (.dir "web") "web" = .ok r' ∧
      r.pattern = .anyOf gs ∧ r'.pattern = .single g ∧
      ∀ path, r.pattern.accepts path = r'.pattern.accepts path := by
  intro globs
  have hroot : ∀ name, Root.dir "web" = .dir name → ∀ c ∈ name.toList, GlobReader.Plain c := by
    intro name h
    cases h
    simp [GlobReader.Plain]
  have hg : ∀ glob ∈ globs, (∃ g, Glob.compile glob = .ok g) ∧
      (∀ c ∈ glob.toList, GlobReader.Loose c) ∧ ∃ c ∈ glob.toList, c ≠ '*' ∧ c ≠ '/' := by
    simp only [globs, List.forall_mem_cons, List.not_mem_nil, false_implies, implies_true, and_true]
    exact ⟨⟨⟨_, rfl⟩, by simp [GlobReader.Loose], 's', by decide⟩,
      ⟨⟨_, rfl⟩, by simp [GlobReader.Loose], 'v', by decide⟩,
      ⟨_, rfl⟩, by simp [GlobReader.Loose], 'x', by decide⟩
  have hb : ∀ globs, ∃ block, (lintNode globs).children = some block ∧ block ≠ [] ∧
      ∀ x ∈ block, x.IsRun := by
    intro globs
    refine ⟨_, rfl, List.cons_ne_nil _ _, fun x hx => ?_⟩
    rw [List.mem_singleton.mp hx]
    exact ⟨rfl, ["lint", "$@"], List.cons_ne_nil _ _, rfl⟩
  exact ⟨by decide, hg, alternatives_agree (.dir "web") hroot globs (by decide) hg "" "web"
    (lintNode globs) (lintNode [Glob.braces globs]) rfl rfl rfl rfl (hb _) (hb _)⟩

end EditHook
