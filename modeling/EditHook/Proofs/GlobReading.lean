import EditHook.Proofs.GlobWriting

/-! The reader of globs makes of a written glob the pieces that spell it, and every glob without braces
that it takes in is a written one. -/

namespace EditHook

namespace GlobReader

def read (s : State) (cs : List Char) : Except GlobError (List Piece) :=
  run s cs >>= finish

variable {s s' : State} {ps qs : List Piece} {q : Piece} {cs ds : List Char} {c : Char}

theorem read_cons (h : step s c = .ok s') : read s (c :: cs) = read s' cs := by
  rw [read, run_cons, h]
  rfl

theorem read_congr (h : step s c = step s' c) : read s (c :: cs) = read s' (c :: cs) := by
  rw [read, run_cons, h]
  rfl

theorem read_append (h : run s cs = .ok s') : read s (cs ++ ds) = read s' ds := by
  rw [read, run_append, h]
  rfl

theorem compile_eq_ok_iff_read {text : String} {g : Glob} :
    Glob.compile text = .ok g ↔ read start text.toList = .ok g.pieces := by
  rw [compile_eq_ok_iff, read, bind_eq_ok_iff]

theorem read_star_settled (h : cs.head? ≠ some '*') :
    read ⟨.star, ps, []⟩ cs = read ⟨.plain, .star :: ps, []⟩ cs := by
  cases cs with
  | nil => rfl
  | cons c cs =>
    have hc : c ≠ '*' := by simpa using h
    have hs : step ⟨.star, ps, []⟩ c = step ⟨.plain, .star :: ps, []⟩ c := by
      simp [step, hc, State.push]
    exact read_congr hs

theorem read_doubleStar_inside (hq : q.endsAtSeparator = false) :
    read ⟨.doubleStar, q :: ps, []⟩ cs = read ⟨.plain, .star :: .star :: q :: ps, []⟩ cs := by
  have hw (n : Next) : wholeComponent? (q :: ps) n = none := by simp [wholeComponent?, hq]
  cases cs with
  | nil => simp [read, run, bind, Except.bind, pure, Except.pure, finish, hw, twoStars, State.push]
  | cons c cs =>
    have hs : step ⟨.doubleStar, q :: ps, []⟩ c =
        step ⟨.plain, .star :: .star :: q :: ps, []⟩ c := by
      simp [step, doubleStarStep, hw, twoStars, State.push]
    exact read_congr hs

theorem read_doubleStar_settled (hc : c ≠ '/') :
    read ⟨.doubleStar, ps, []⟩ (c :: cs) = read ⟨.plain, .star :: .star :: ps, []⟩ (c :: cs) := by
  have hn : next ⟨.doubleStar, ps, []⟩ c = .other := by simp [next, hc]
  have hw : wholeComponent? ps .other = none := by
    cases ps with
    | nil => rfl
    | cons p ps => simp [wholeComponent?]
  have hs : step ⟨.doubleStar, ps, []⟩ c = step ⟨.plain, .star :: .star :: ps, []⟩ c := by
    simp [step, doubleStarStep, hn, hw, twoStars, State.push]
  exact read_congr hs

/-- Behind anything but a separator every star stands for itself, however many follow. -/
theorem read_star_inside (hq : q.endsAtSeparator = false) :
    read ⟨.plain, q :: ps, []⟩ ('*' :: cs) = read ⟨.plain, .star :: q :: ps, []⟩ cs := by
  induction cs generalizing q ps with
  | nil => rfl
  | cons c cs ih =>
    have hs : read ⟨.plain, q :: ps, []⟩ ('*' :: c :: cs) = read ⟨.star, q :: ps, []⟩ (c :: cs) :=
      read_cons rfl
    rw [hs]
    by_cases hc : c = '*'
    · subst hc
      have hd : read ⟨.star, q :: ps, []⟩ ('*' :: cs) = read ⟨.doubleStar, q :: ps, []⟩ cs :=
        read_cons rfl
      have hstar : read ⟨.plain, .star :: q :: ps, []⟩ ('*' :: cs) =
          read ⟨.plain, .star :: .star :: q :: ps, []⟩ cs := ih rfl
      rw [hd, read_doubleStar_inside hq, hstar]
    · exact read_star_settled (by simpa using hc)

theorem run_lists {members : List Char} {ranges : List (Char × Char)} (h : Glob.Lists members ranges)
    (negated : Bool) :
    run ⟨.members negated [] false, ps, []⟩ members = .ok ⟨.members negated ranges false, ps, []⟩ := by
  induction h with
  | first c => rfl
  | single h hc hd ih =>
    rw [run_append, ih]
    simp [run, bind, Except.bind, pure, Except.pure, step, memberStep, h.ne_nil.2, hc, hd]
  | range h hc hle ih =>
    have hlt := Char.not_lt.mpr hle
    rw [run_append, ih]
    simp [run, bind, Except.bind, pure, Except.pure, step, memberStep, extendLast, hc, hlt]

theorem run_members {members : List Char} {ranges : List (Char × Char)}
    (h : Glob.Lists members ranges) (negated dash : Bool) :
    run ⟨.members negated [] false, ps, []⟩ (members ++ ((if dash then ['-'] else []) ++ [']'])) =
      .ok ⟨.plain, .charSet negated (if dash then ('-', '-') :: ranges else ranges).reverse :: ps,
        []⟩ := by
  have hne := h.ne_nil.2
  rw [run_append, run_lists h]
  cases dash <;>
    simp [run, bind, Except.bind, pure, Except.pure, step, memberStep, hne, State.push]

theorem step_sign {groups : List OpenGroup} (hc : c = '!' ∨ c = '^') :
    step ⟨.classStart, ps, groups⟩ c = .ok ⟨.members true [] false, ps, groups⟩ := by
  simp [step, hc]

theorem step_unsigned {groups : List OpenGroup} (hc : c ≠ '!' ∧ c ≠ '^') :
    step ⟨.classStart, ps, groups⟩ c = step ⟨.members false [] false, ps, groups⟩ c := by
  simp [step, hc]
  rfl

theorem run_charClass (k : Glob.CharClass) :
    run ⟨.plain, ps, []⟩ k.chars = .ok ⟨.plain, k.piece :: ps, []⟩ := by
  obtain ⟨sign, members, ranges, dash, signs, unsigned, lists⟩ := k
  have hopen (cs : List Char) : run ⟨.plain, ps, []⟩ ('[' :: cs) = run ⟨.classStart, ps, []⟩ cs :=
    run_cons _ _ _
  simp only [Glob.CharClass.chars, List.cons_append, List.append_assoc, hopen]
  cases sign with
  | some c =>
    rw [Option.toList_some, List.singleton_append, run_cons, step_sign (signs c rfl)]
    exact run_members lists true dash
  | none =>
    obtain ⟨c, cs, rfl⟩ := List.exists_cons_of_ne_nil lists.ne_nil.1
    rw [Option.toList_none, List.nil_append, List.cons_append, run_cons,
      step_unsigned (unsigned rfl c rfl), ← run_cons]
    exact run_members lists false dash

theorem run_mark {m : Glob.Mark} (h : m ≠ .star) :
    run ⟨.plain, ps, []⟩ m.chars = .ok ⟨.plain, m.piece :: ps, []⟩ := by
  cases m with
  | letter c plain inside =>
    have hp : ∀ d ∈ [c], Plain d := by simpa using plain
    have hr : run ⟨.plain, ps, []⟩ ([c] ++ []) = run ⟨.plain, .literal c :: ps, []⟩ [] :=
      run_plain hp
    exact hr
  | one => rfl
  | star => exact absurd rfl h
  | oneOf k => exact run_charClass k

theorem mark_endsAtSeparator (m : Glob.Mark) : m.piece.endsAtSeparator = false := by
  cases m with
  | letter c plain inside => simpa [Glob.Mark.piece] using inside
  | one => rfl
  | star => rfl
  | oneOf k => rfl

theorem marks_head (m : Glob.Mark) (ms : List Glob.Mark) (cs : List Char) :
    ∃ c ds, (m :: ms).flatMap Glob.Mark.chars ++ cs = c :: ds ∧ c ≠ '/' ∧ (m ≠ .star → c ≠ '*') := by
  cases m with
  | letter c plain inside =>
    refine ⟨c, _, rfl, inside, fun _ hc => ?_⟩
    subst hc
    exact absurd plain (by decide)
  | one => exact ⟨'?', _, rfl, by decide, fun _ => by decide⟩
  | star => exact ⟨'*', _, rfl, by decide, fun h => absurd rfl h⟩
  | oneOf k => exact ⟨'[', _, rfl, by decide, fun _ => by decide⟩

theorem read_marks_inside (ms : List Glob.Mark) (hq : q.endsAtSeparator = false) :
    read ⟨.plain, q :: ps, []⟩ (ms.flatMap Glob.Mark.chars ++ cs) =
      read ⟨.plain, (ms.map Glob.Mark.piece).reverse ++ q :: ps, []⟩ cs := by
  induction ms generalizing q ps with
  | nil => rfl
  | cons m ms ih =>
    have hm : read ⟨.plain, q :: ps, []⟩ (m.chars ++ (ms.flatMap Glob.Mark.chars ++ cs)) =
        read ⟨.plain, m.piece :: q :: ps, []⟩ (ms.flatMap Glob.Mark.chars ++ cs) := by
      by_cases hs : m = .star
      · subst hs
        exact read_star_inside hq
      · exact read_append (run_mark hs)
    rw [List.flatMap_cons, List.append_assoc, hm, ih (mark_endsAtSeparator m)]
    simp

/-- A component is read mark by mark. Its first stars are at a separator or at the start, and what
stands behind them shows that they are not two stars alone. -/
theorem read_component (k : Glob.Component) (hcs : ∀ c ∈ cs.head?, c = '/') :
    read ⟨.plain, ps, []⟩ (k.chars ++ cs) = read ⟨.plain, k.pieces.reverse ++ ps, []⟩ cs := by
  obtain ⟨marks, named⟩ := k
  simp only [Glob.Component.chars, Glob.Component.pieces]
  have inside (m : Glob.Mark) (ms : List Glob.Mark)
      (hs : read ⟨.plain, ps, []⟩ (m.chars ++ (ms.flatMap Glob.Mark.chars ++ cs)) =
        read ⟨.plain, m.piece :: ps, []⟩ (ms.flatMap Glob.Mark.chars ++ cs)) :
      read ⟨.plain, ps, []⟩ ((m :: ms).flatMap Glob.Mark.chars ++ cs) =
        read ⟨.plain, ((m :: ms).map Glob.Mark.piece).reverse ++ ps, []⟩ cs := by
    rw [List.flatMap_cons, List.append_assoc, hs, read_marks_inside ms (mark_endsAtSeparator m)]
    simp
  cases marks with
  | nil => rfl
  | cons m ms =>
    by_cases hm : m = .star
    · subst hm
      refine inside .star ms ?_
      have hstar : read ⟨.plain, ps, []⟩ ('*' :: (ms.flatMap Glob.Mark.chars ++ cs)) =
          read ⟨.star, ps, []⟩ (ms.flatMap Glob.Mark.chars ++ cs) := read_cons rfl
      refine hstar.trans ?_
      cases ms with
      | nil =>
        refine read_star_settled fun he => ?_
        exact absurd (hcs _ he) (by decide)
      | cons m ms =>
        by_cases hm : m = .star
        · subst hm
          cases ms with
          | nil => exact absurd rfl named
          | cons m ms =>
            -- a third mark follows the two stars, and none starts with a separator
            obtain ⟨c, ds, hc, hsl, -⟩ := marks_head m ms cs
            have hdouble : read ⟨.star, ps, []⟩ ('*' :: c :: ds) =
                read ⟨.doubleStar, ps, []⟩ (c :: ds) := read_cons rfl
            have hinside : read ⟨.plain, .star :: ps, []⟩ ('*' :: c :: ds) =
                read ⟨.plain, .star :: .star :: ps, []⟩ (c :: ds) := read_star_inside rfl
            rw [← read_doubleStar_settled hsl, ← hdouble, ← hc] at hinside
            exact hinside.symm
        · obtain ⟨c, ds, hc, -, hne⟩ := marks_head m ms cs
          rw [hc]
          exact read_star_settled (by simpa using hne hm)
    · exact inside m ms (read_append (run_mark hm))

theorem run_starComponent (h : wholeComponent? ps .separator = some qs) :
    run ⟨.plain, ps, []⟩ ['*', '*', '/'] = .ok ⟨.plain, qs, []⟩ := by
  have hs : step ⟨.doubleStar, ps, []⟩ '/' = .ok ⟨.plain, qs, []⟩ := by
    simp [step, doubleStarStep, next, h]
  have hr : run ⟨.plain, ps, []⟩ ['*', '*', '/'] = run ⟨.doubleStar, ps, []⟩ ['/'] := rfl
  rw [hr, run_cons, hs]
  rfl

theorem run_starComponents (h : wholeComponent? ps .separator = some ps) (n : Nat) :
    run ⟨.plain, ps, []⟩ (starComponents n) = .ok ⟨.plain, ps, []⟩ := by
  induction n with
  | zero => rfl
  | succ n ih =>
    rw [starComponents_succ, run_append, ih]
    exact run_starComponent h

theorem run_starRun (h : wholeComponent? ps .separator = some qs)
    (hq : wholeComponent? qs .separator = some qs) (n : Nat) :
    run ⟨.plain, ps, []⟩ (starComponents (n + 1)) = .ok ⟨.plain, qs, []⟩ := by
  rw [starComponents_cons, run_append, run_starComponent h]
  exact run_starComponents hq n

theorem read_lastStars (h : wholeComponent? ps .textEnd = some qs) :
    read ⟨.plain, ps, []⟩ ['*', '*'] = .ok qs.reverse := by
  have hf : finish ⟨.doubleStar, ps, []⟩ = .ok qs.reverse := by simp [finish, h]
  exact hf

theorem read_slash (cs : List Char) :
    read ⟨.plain, ps, []⟩ ('/' :: cs) = read ⟨.plain, .literal '/' :: ps, []⟩ cs :=
  read_cons rfl

theorem tail_head (t : Glob.Tail) : ∀ c ∈ t.chars.head?, c = '/' := by
  cases t <;> simp [Glob.Tail.chars]

theorem read_tail (t : Glob.Tail) :
    read ⟨.plain, ps, []⟩ t.chars = .ok (ps.reverse ++ t.pieces) := by
  induction t generalizing ps with
  | done =>
    have hr : read ⟨.plain, ps, []⟩ [] = .ok ps.reverse := rfl
    simpa [Glob.Tail.chars, Glob.Tail.pieces] using hr
  | component c rest ih =>
    rw [Glob.Tail.chars, read_slash, read_component c (tail_head rest), ih]
    simp [Glob.Tail.pieces]
  | between n c rest ih =>
    have hs : run ⟨.plain, .literal '/' :: ps, []⟩ (starComponents (n + 1)) =
        .ok ⟨.plain, .between :: ps, []⟩ := run_starRun rfl rfl n
    rw [Glob.Tail.chars, read_slash, read_append hs, read_component c (tail_head rest), ih]
    simp [Glob.Tail.pieces]
  | trailing n =>
    rw [Glob.Tail.chars, read_slash]
    cases n with
    | zero =>
      have hl : read ⟨.plain, .literal '/' :: ps, []⟩ ['*', '*'] = .ok (.trailing :: ps).reverse :=
        read_lastStars rfl
      simpa [starComponents, Glob.Tail.pieces] using hl
    | succ n =>
      have hs : run ⟨.plain, .literal '/' :: ps, []⟩ (starComponents (n + 1)) =
          .ok ⟨.plain, .between :: ps, []⟩ := run_starRun rfl rfl n
      have hl : read ⟨.plain, .between :: ps, []⟩ ['*', '*'] = .ok (.trailing :: ps).reverse :=
        read_lastStars rfl
      rw [read_append hs, hl]
      simp [Glob.Tail.pieces]

theorem read_written (p : Glob.Written) : read start p.chars = .ok p.pieces := by
  have leading (n : Nat) : run start (starComponents (n + 1)) = .ok ⟨.plain, [.leading], []⟩ :=
    run_starRun rfl rfl n
  cases p with
  | component c rest =>
    rw [Glob.Written.chars, start, read_component c (tail_head rest), read_tail]
    simp [Glob.Written.pieces]
  | leading n c rest more =>
    rw [Glob.Written.chars, read_append (leading n), read_component c (tail_head rest), read_tail]
    simp [Glob.Written.pieces]
  | all n =>
    have hlast {ps : List Piece} (h : wholeComponent? ps .textEnd = some [.leading]) :
        read ⟨.plain, ps, []⟩ ['*', '*'] = .ok [.leading] := read_lastStars h
    cases n with
    | zero => exact hlast rfl
    | succ n =>
      rw [Glob.Written.chars, read_append (leading n)]
      exact hlast rfl
  | allBelow n =>
    rw [Glob.Written.chars, ← List.append_nil (starComponents (n + 1)), read_append (leading n)]
    rfl

/-- What has been read of a text without braces: marks, and maybe a class whose end is not met. -/
def Seen (s : State) (cs : List Char) : Prop :=
  match s.mode with
  | .classStart => ∃ ds, Glob.Marked ds ∧ cs = ds ++ ['[']
  | .members _ ranges dash => ∃ ds, Glob.Marked ds ∧
      (ranges = [] ∧ (∃ c, (c = '!' ∨ c = '^') ∧ cs = ds ++ ['[', c]) ∨
        ∃ k : Glob.CharClass, k.ranges = ranges ∧ k.dash = dash ∧ cs ++ [']'] = ds ++ k.chars)
  | _ => Glob.Marked cs

theorem plainStep_seen (h : plainStep s c = .ok s') (hb : c ≠ '\x7b' ∧ c ≠ '\x7d')
    (hm : Glob.Marked cs) : Seen s' (cs ++ [c]) := by
  unfold plainStep at h
  split at h
  · cases h
    exact hm.mark .one
  · cases h
    exact hm.mark .star
  · cases h
    exact ⟨cs, hm, rfl⟩
  · exact absurd rfl hb.1
  · exact absurd rfl hb.2
  -- no group is open here, but the text would be the same if one were
  · have hcomma := hm.mark (.letter ',' (by decide) (by decide))
    split at h <;> cases h <;> exact hcomma
  · cases h
    by_cases hc : c = '/'
    · rw [hc]
      exact hm.slash
    · have hp : Plain c := by simp_all [Plain]
      exact hm.mark (.letter c hp hc)

theorem extendLast_eq_ok {ranges ranges' : List (Char × Char)} (hne : ranges ≠ [])
    (h : extendLast ranges c = .ok ranges') :
    ∃ lo hi rest, ranges = (lo, hi) :: rest ∧ lo ≤ c ∧ ranges' = (lo, c) :: rest := by
  cases ranges with
  | nil => exact absurd rfl hne
  | cons r rest =>
    obtain ⟨lo, hi⟩ := r
    rw [extendLast] at h
    split at h
    · cases h
    · rename_i hlt
      cases h
      exact ⟨lo, hi, rest, rfl, Char.not_lt.mp hlt, rfl⟩

theorem memberStep_seen {negated dash : Bool} {ranges : List (Char × Char)} {k : Glob.CharClass}
    (hk : k.ranges = ranges ∧ k.dash = dash) (hm : Glob.Marked ds) (ht : cs ++ [']'] = ds ++ k.chars)
    (h : memberStep s negated ranges dash c = .ok s') : Seen s' (cs ++ [c]) := by
  obtain ⟨sign, members, ranges, dash, signs, unsigned, lists⟩ := k
  obtain ⟨rfl, rfl⟩ := hk
  obtain rfl : cs = ds ++ '[' :: (sign.toList ++ members ++ if dash then ['-'] else []) := by
    have he : cs ++ [']'] =
        (ds ++ '[' :: (sign.toList ++ members ++ if dash then ['-'] else [])) ++ [']'] := by
      simpa [Glob.CharClass.chars] using ht
    exact List.append_cancel_right he
  have hne := lists.ne_nil
  have unsigned' (more : List Char) :
      sign = none → ∀ d ∈ (members ++ more).head?, d ≠ '!' ∧ d ≠ '^' := by
    rw [List.head?_append_of_ne_nil _ hne.1]
    exact unsigned
  unfold memberStep at h
  rw [if_neg (by simpa using hne.2)] at h
  split at h
  · rename_i hc
    cases h
    rw [hc, ht]
    exact hm.mark (.oneOf _)
  · rename_i hc
    split at h
    · rename_i hd
      obtain ⟨_, he, h⟩ := bind_eq_ok h
      cases h
      obtain ⟨lo, hi, rest, rfl, hle, rfl⟩ := extendLast_eq_ok hne.2 he
      have hd : dash = true := hd
      exact ⟨ds, hm, .inr ⟨⟨sign, members ++ ['-', c], _, false, signs, unsigned' _,
        .range lists hc hle⟩, rfl, rfl, by simp [Glob.CharClass.chars, hd]⟩⟩
    · rename_i hd
      have hd : dash = false := eq_false_of_ne_true hd
      split at h
      · rename_i hdash
        cases h
        exact ⟨ds, hm, .inr ⟨⟨sign, members, ranges, true, signs, unsigned, lists⟩, rfl, rfl,
          by simp [Glob.CharClass.chars, hd, hdash]⟩⟩
      · rename_i hdash
        cases h
        exact ⟨ds, hm, .inr ⟨⟨sign, members ++ [c], _, false, signs, unsigned' _,
          .single lists hc hdash⟩, rfl, rfl, by simp [Glob.CharClass.chars, hd]⟩⟩

theorem step_seen (h : step s c = .ok s') (hb : c ≠ '\x7b' ∧ c ≠ '\x7d') (hs : Seen s cs) :
    Seen s' (cs ++ [c]) := by
  obtain ⟨mode, current, groups⟩ := s
  cases mode with
  | plain => exact plainStep_seen h hb hs
  | star =>
    simp only [step] at h
    split at h
    · rename_i hc
      cases h
      rw [hc]
      exact Glob.Marked.mark hs .star
    · exact plainStep_seen h hb hs
  | doubleStar =>
    have h : doubleStarStep ⟨.doubleStar, current, groups⟩ c = .ok s' := h
    rw [doubleStarStep_eq] at h
    split at h
    · exact plainStep_seen h hb hs
    · rename_i t ht
      split at h
      · rename_i hc
        obtain ⟨ps, -, rfl⟩ := Option.map_eq_some_iff.mp ht
        cases h
        rw [hc]
        exact Glob.Marked.slash hs
      · exact plainStep_seen h hb hs
  | classStart =>
    obtain ⟨ds, hm, rfl⟩ := hs
    simp only [step] at h
    split at h
    · rename_i hc
      cases h
      exact ⟨ds, hm, .inl ⟨rfl, c, by simpa using hc, by simp⟩⟩
    · rename_i hc
      cases h
      have hc : c ≠ '!' ∧ c ≠ '^' := by simpa using hc
      exact ⟨ds, hm, .inr ⟨⟨none, [c], [(c, c)], false, by simp, by simpa using hc, .first c⟩, rfl,
        rfl, by simp [Glob.CharClass.chars]⟩⟩
  | members negated ranges dash =>
    obtain ⟨ds, hm, ⟨rfl, d, hd, rfl⟩ | ⟨k, hr, hdash, ht⟩⟩ := hs
    -- the first member may be any character, even one that ends a class elsewhere
    · cases h
      exact ⟨ds, hm, .inr ⟨⟨some d, [c], [(c, c)], false, by simpa using hd, by simp, .first c⟩,
        rfl, rfl, by simp [Glob.CharClass.chars]⟩⟩
    · exact memberStep_seen ⟨hr, hdash⟩ hm ht h

theorem run_seen (h : run start cs = .ok s) (hb : ∀ c ∈ cs, c ≠ '\x7b' ∧ c ≠ '\x7d') :
    Seen s cs := by
  have hk : (∀ c ∈ [] ++ cs, c ≠ '\x7b' ∧ c ≠ '\x7d') → Seen s cs := by
    refine run_keeps (P := fun s ds => (∀ c ∈ ds, c ≠ '\x7b' ∧ c ≠ '\x7d') → Seen s ds) ?_ ?_ h
    · intro s s' ds c hs hstep hall
      rw [List.forall_mem_append, List.forall_mem_singleton] at hall
      exact step_seen hstep hall.2 (hs hall.1)
    · intro _
      exact ⟨[], [], rfl⟩
  exact hk hb

end GlobReader

namespace Glob

theorem compile_written {text : String} {p : Written} (h : p.chars = text.toList) :
    compile text = .ok ⟨p.pieces⟩ := by
  rw [GlobReader.compile_eq_ok_iff_read, ← h]
  exact GlobReader.read_written p

theorem marked_of_compile {text : String} {g : Glob} (h : compile text = .ok g)
    (hb : ∀ c ∈ text.toList, c ≠ '\x7b' ∧ c ≠ '\x7d') : Marked text.toList := by
  obtain ⟨s, hs, hf⟩ := GlobReader.compile_eq_ok_iff.mp h
  obtain ⟨-, ⟨stars, hp⟩, -⟩ := GlobReader.finish_eq_ok hf
  have hseen := GlobReader.run_seen hs hb
  obtain ⟨mode, current, groups⟩ := s
  cases mode with
  | plain => exact hseen
  | star => exact hseen
  | doubleStar => exact hseen
  | classStart => cases hp
  | members => cases hp

theorem exists_written {text : String} {g : Glob} (h : compile text = .ok g)
    (hb : ∀ c ∈ text.toList, c ≠ '\x7b' ∧ c ≠ '\x7d') : ∃ p : Written, p.chars = text.toList :=
  (marked_of_compile h hb).exists_written

/-- Every glob without braces that compiles is a written one, and however it is taken as one, it
accepts a path just when the path's bytes are among those it stands for. -/
theorem accepts_as_written (text : String) (hb : ∀ c ∈ text.toList, c ≠ '\x7b' ∧ c ≠ '\x7d')
    {g : Glob} (h : compile text = .ok g) :
    (∃ p : Written, p.chars = text.toList) ∧
    ∀ p : Written, p.chars = text.toList → p.Ascii →
      ∀ path, g.accepts path = true ↔ p.Reads (utf8 path) := by
  refine ⟨exists_written h hb, fun p hp ha path => ?_⟩
  rw [compile_written hp] at h
  cases h
  exact Written.accepts_iff_reads ha path

def notBToD : CharClass where
  sign := some '!'
  members := ['b', '-', 'd']
  ranges := [('b', 'd')]
  dash := true
  signs := by simp
  unsigned := by simp
  lists := .range (.first 'b') (by decide) (by decide)

def belowA : Written :=
  .component ⟨[.letter 'a' (by decide) (by decide)], by simp⟩
    (.between 0 ⟨[.oneOf notBToD, .star], by simp⟩ .done)

theorem accepts_belowA :
    (∀ c ∈ "a/**/[!b-d-]*".toList, c ≠ '\x7b' ∧ c ≠ '\x7d') ∧
    belowA.chars = "a/**/[!b-d-]*".toList ∧ belowA.Ascii ∧
    ∃ g, compile "a/**/[!b-d-]*" = .ok g ∧
      ∀ path, g.accepts path = true ↔ belowA.Reads (utf8 path) := by
  have hb : ∀ c ∈ "a/**/[!b-d-]*".toList, c ≠ '\x7b' ∧ c ≠ '\x7d' := by simp
  have hc : belowA.chars = "a/**/[!b-d-]*".toList := by decide
  have ha : belowA.Ascii := by
    simp [belowA, Written.Ascii, Tail.Ascii, Component.Ascii, Mark.Ascii, CharClass.Ascii, notBToD]
  exact ⟨hb, hc, ha, _, rfl, (accepts_as_written _ hb rfl).2 belowA hc ha⟩

end Glob

end EditHook
