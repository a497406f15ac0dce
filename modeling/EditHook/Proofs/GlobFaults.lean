import EditHook.Proofs.FirstMistake
import EditHook.Proofs.GlobReading
import EditHook.Proofs.RoundTrip

/-! Which texts are refused as globs. Outside classes nothing but `[` and braces can be at fault, and
what stands in a class is judged once its end is found. -/

namespace EditHook

namespace Glob

/-- A class with its end. Its first member is any character, also one that would end it later on. -/
structure Bracket where
  sign : Option Char
  first : Char
  others : List Char
  signs : ∀ c ∈ sign, c = '!' ∨ c = '^'
  unsigned : sign = none → first ≠ '!' ∧ first ≠ '^'
  inside : ']' ∉ others

/-- The ranges in the members behind `lo`. A `-` gives what stands before it, also a range, a new end,
unless nothing stands behind it. -/
def rangesFrom (lo : Char) : List Char → List (Char × Char)
  | [] => []
  | ['-'] => []
  | '-' :: hi :: cs => (lo, hi) :: rangesFrom lo cs
  | c :: cs => rangesFrom c cs

namespace Bracket

def opened (k : Bracket) : List Char :=
  '[' :: (k.sign.toList ++ k.first :: k.others)

def chars (k : Bracket) : List Char :=
  k.opened ++ [']']

def Disordered (k : Bracket) : Prop :=
  ∃ r ∈ rangesFrom k.first k.others, r.2 < r.1

end Bracket

/-- The texts with a fault where so many groups are open and no class is. -/
inductive Faulty : Nat → List Char → Prop where
  | letter {d c cs} : c ≠ '[' ∧ c ≠ '\x7b' ∧ c ≠ '\x7d' → Faulty d cs → Faulty d (c :: cs)
  | opening {d cs} : Faulty (d + 1) cs → Faulty d ('\x7b' :: cs)
  | closing {d cs} : Faulty d cs → Faulty (d + 1) ('\x7d' :: cs)
  | bracket {d cs} (k : Bracket) : Faulty d cs → Faulty d (k.chars ++ cs)
  | unopened (cs) : Faulty 0 ('\x7d' :: cs)
  | unclosed (d) : Faulty (d + 1) []
  | endless (d cs) : (∀ (k : Bracket) after, '[' :: cs ≠ k.chars ++ after) → Faulty d ('[' :: cs)
  | disordered (d cs) (k : Bracket) : k.Disordered → Faulty d (k.chars ++ cs)

theorem bracket_cases (cs : List Char) :
    (∃ (k : Bracket) (after : List Char), '[' :: cs = k.chars ++ after) ∨
    (∃ k : Bracket, '[' :: cs = k.opened) ∨ cs = [] ∨ cs = ['!'] ∨ cs = ['^'] := by
  have behind (sign : Option Char) (first : Char) (tail : List Char)
      (signs : ∀ c ∈ sign, c = '!' ∨ c = '^') (unsigned : sign = none → first ≠ '!' ∧ first ≠ '^') :
      (∃ (k : Bracket) (after : List Char),
        '[' :: (sign.toList ++ first :: tail) = k.chars ++ after) ∨
      ∃ k : Bracket, '[' :: (sign.toList ++ first :: tail) = k.opened := by
    by_cases hend : ']' ∈ tail
    · obtain ⟨others, after, rfl, inside⟩ := List.eq_append_cons_of_mem hend
      exact .inl ⟨⟨sign, first, others, signs, unsigned, inside⟩, after, by
        simp [Bracket.chars, Bracket.opened]⟩
    · exact .inr ⟨⟨sign, first, tail, signs, unsigned, hend⟩, rfl⟩
  cases cs with
  | nil => exact .inr (.inr (.inl rfl))
  | cons c cs =>
    by_cases hc : c = '!' ∨ c = '^'
    · cases cs with
      | nil =>
        rcases hc with rfl | rfl
        · exact .inr (.inr (.inr (.inl rfl)))
        · exact .inr (.inr (.inr (.inr rfl)))
      | cons first tail =>
        exact (behind (some c) first tail (by simpa using hc) (by simp)).imp_right .inl
    · exact (behind none c cs (by simp) fun _ => not_or.mp hc).imp_right .inl

end Glob

namespace GlobReader

open Glob

structure Outside (d : Nat) (s : State) : Prop where
  depth : s.groups.length = d
  waits : ∃ stars, pending? s.mode = some stars

def Refuses (s : State) (cs : List Char) : Prop :=
  ∃ e, read s cs = .error e

variable {d : Nat} {s s' : State} {c : Char} {cs ds : List Char} {e : GlobError}

theorem refuses_append (h : run s cs = .ok s') : Refuses s (cs ++ ds) ↔ Refuses s' ds := by
  rw [Refuses, read_append h, Refuses]

theorem refuses_cons (h : step s c = .ok s') : Refuses s (c :: cs) ↔ Refuses s' cs := by
  rw [Refuses, read_cons h, Refuses]

theorem refuses_of_run (h : run s cs = .error e) : Refuses s (cs ++ ds) := by
  refine ⟨e, ?_⟩
  rw [read, run_append, h]
  rfl

theorem refuses_of_step (h : step s c = .error e) : Refuses s (c :: cs) := by
  refine ⟨e, ?_⟩
  rw [read, run_cons, h]
  rfl

theorem Outside.plain (ps : List Piece) (h : Outside d s) : Outside d ⟨.plain, ps, s.groups⟩ :=
  ⟨h.depth, _, rfl⟩

/-- Stars that are waited for have no part in what the next character does, unless it joins them. -/
theorem Outside.step (h : Outside d s) (c : Char) :
    (∃ t, Outside d t ∧ step s c = plainStep t c) ∨
      (c = '*' ∨ c = '/') ∧ ∃ s', step s c = .ok s' ∧ Outside d s' := by
  obtain ⟨mode, ps, groups⟩ := s
  cases mode with
  | plain => exact .inl ⟨_, h, rfl⟩
  | star =>
    by_cases hc : c = '*'
    · subst hc
      exact .inr ⟨.inl rfl, _, rfl, h.depth, _, rfl⟩
    · exact .inl ⟨_, h.plain (.star :: ps), by simp [GlobReader.step, hc, State.push]⟩
  | doubleStar =>
    have hs : GlobReader.step ⟨.doubleStar, ps, groups⟩ c =
        doubleStarStep ⟨.doubleStar, ps, groups⟩ c := rfl
    rw [hs, doubleStarStep]
    split
    · exact .inl ⟨_, h.plain _, rfl⟩
    · rename_i pieces _
      by_cases hc : c = '/'
      · subst hc
        exact .inr ⟨.inr rfl, _, rfl, h.plain pieces⟩
      · exact .inl ⟨_, h.plain pieces, if_neg hc⟩
  | classStart => exact absurd h.waits (by simp [pending?])
  | members => exact absurd h.waits (by simp [pending?])

theorem Outside.step_of_ne (h : Outside d s) (hc : c ≠ '*' ∧ c ≠ '/') :
    ∃ t, Outside d t ∧ GlobReader.step s c = plainStep t c :=
  (h.step c).resolve_right fun hs => hs.1.elim hc.1 hc.2

theorem step_letter (h : Outside d s) (hc : c ≠ '[' ∧ c ≠ '\x7b' ∧ c ≠ '\x7d') :
    ∃ s', step s c = .ok s' ∧ Outside d s' := by
  rcases h.step c with ⟨t, ht, hs⟩ | ⟨-, hs⟩
  · rw [hs]
    unfold plainStep
    split
    · exact ⟨_, rfl, ht.plain _⟩
    · exact ⟨_, rfl, ht.depth, _, rfl⟩
    · exact absurd rfl hc.1
    · exact absurd rfl hc.2.1
    · exact absurd rfl hc.2.2
    · split
      · exact ⟨_, rfl, ht.plain _⟩
      · rename_i hg
        exact ⟨_, rfl, by rw [← ht.depth, hg]; rfl, _, rfl⟩
    · exact ⟨_, rfl, ht.plain _⟩
  · exact hs

theorem step_opening (h : Outside d s) : ∃ s', step s '\x7b' = .ok s' ∧ Outside (d + 1) s' := by
  obtain ⟨t, ht, hs⟩ := h.step_of_ne (c := '\x7b') (by decide)
  exact ⟨_, hs, congrArg Nat.succ ht.depth, _, rfl⟩

theorem step_closing (h : Outside (d + 1) s) : ∃ s', step s '\x7d' = .ok s' ∧ Outside d s' := by
  obtain ⟨⟨mode, ps, groups⟩, ht, hs⟩ := h.step_of_ne (c := '\x7d') (by decide)
  cases groups with
  | nil => cases ht.depth
  | cons g outer => exact ⟨_, hs, Nat.succ.inj ht.depth, _, rfl⟩

theorem step_unopened (h : Outside 0 s) : step s '\x7d' = .error .unopenedGroup := by
  obtain ⟨⟨mode, ps, groups⟩, ht, hs⟩ := h.step_of_ne (c := '\x7d') (by decide)
  obtain rfl := List.length_eq_zero_iff.mp ht.depth
  exact hs

theorem step_bracket (h : Outside d s) :
    ∃ ps groups, groups.length = d ∧ step s '[' = .ok ⟨.classStart, ps, groups⟩ := by
  obtain ⟨t, ht, hs⟩ := h.step_of_ne (c := '[') (by decide)
  exact ⟨_, _, ht.depth, hs⟩

theorem finish_outside (h : Outside d s) : (∃ e, finish s = .error e) ↔ d ≠ 0 := by
  obtain ⟨mode, ps, groups⟩ := s
  obtain rfl := h.depth
  have hw := h.waits
  cases groups <;> cases mode <;> simp_all [finish, pending?]

theorem run_others {others : List Char} (inside : ']' ∉ others) (negated : Bool) (lo hi : Char)
    (ranges : List (Char × Char)) (ps : List Piece) (groups : List OpenGroup) :
    ((∃ r ∈ rangesFrom lo others, r.2 < r.1) ∧
      ∃ e, run ⟨.members negated ((lo, hi) :: ranges) false, ps, groups⟩ others = .error e) ∨
    (¬ (∃ r ∈ rangesFrom lo others, r.2 < r.1) ∧
      ∃ ranges' dash, ranges' ≠ [] ∧
        run ⟨.members negated ((lo, hi) :: ranges) false, ps, groups⟩ others =
          .ok ⟨.members negated ranges' dash, ps, groups⟩) := by
  induction lo, others using rangesFrom.induct generalizing hi ranges with
  | case1 lo => exact .inr ⟨by simp [rangesFrom], _, _, List.cons_ne_nil _ _, rfl⟩
  | case2 lo => exact .inr ⟨by simp [rangesFrom], _, _, List.cons_ne_nil _ _, rfl⟩
  | case3 lo c cs ih =>
    simp only [List.mem_cons, not_or] at inside
    have hc : c ≠ ']' := Ne.symm inside.2.1
    have hs : run ⟨.members negated ((lo, hi) :: ranges) false, ps, groups⟩ ('-' :: c :: cs) =
        step ⟨.members negated ((lo, hi) :: ranges) true, ps, groups⟩ c >>= fun s => run s cs := rfl
    rw [rangesFrom, List.exists_mem_cons_iff, hs]
    by_cases hlt : c < lo
    · refine .inl ⟨.inl hlt, .invalidRange lo c, ?_⟩
      simp [step, memberStep, extendLast, hc, hlt, bind, Except.bind]
    · have hd : step ⟨.members negated ((lo, hi) :: ranges) true, ps, groups⟩ c =
          .ok ⟨.members negated ((lo, c) :: ranges) false, ps, groups⟩ := by
        simp [step, memberStep, extendLast, hc, hlt, bind, Except.bind]
      rw [hd, or_iff_right hlt]
      exact ih inside.2.2 c ranges
  | case4 lo c cs hlast hdash ih =>
    have hd : c ≠ '-' := by
      rintro rfl
      cases cs with
      | nil => exact hlast rfl rfl
      | cons hi cs => exact hdash hi cs rfl rfl
    simp only [List.mem_cons, not_or] at inside
    have hc : c ≠ ']' := Ne.symm inside.1
    have hs : step ⟨.members negated ((lo, hi) :: ranges) false, ps, groups⟩ c =
        .ok ⟨.members negated ((c, c) :: (lo, hi) :: ranges) false, ps, groups⟩ := by
      simp [step, memberStep, hc, hd]
    rw [rangesFrom.eq_4 lo c cs hlast hdash, run_cons, hs]
    exact ih inside.2 c ((lo, hi) :: ranges)

theorem run_first (k : Bracket) (ps : List Piece) (groups : List OpenGroup) :
    run ⟨.classStart, ps, groups⟩ (k.sign.toList ++ k.first :: k.others) =
      run ⟨.members k.sign.isSome [(k.first, k.first)] false, ps, groups⟩ k.others := by
  obtain ⟨sign, first, others, signs, unsigned, inside⟩ := k
  cases sign with
  | some c =>
    rw [Option.toList_some, List.singleton_append, run_cons, step_sign (signs c rfl)]
    rfl
  | none =>
    rw [Option.toList_none, List.nil_append, run_cons, step_unsigned (unsigned rfl)]
    rfl

theorem run_opened (h : Outside d s) (k : Bracket) :
    (k.Disordered ∧ ∃ e, run s k.opened = .error e) ∨
    (¬ k.Disordered ∧ ∃ negated ranges dash ps groups, ranges ≠ [] ∧ groups.length = d ∧
      run s k.opened = .ok ⟨.members negated ranges dash, ps, groups⟩) := by
  obtain ⟨ps, groups, hg, hs⟩ := step_bracket h
  have hr : run s k.opened =
      run ⟨.members k.sign.isSome [(k.first, k.first)] false, ps, groups⟩ k.others := by
    rw [Bracket.opened, run_cons, hs, ← run_first]
    rfl
  rw [hr]
  rcases run_others k.inside k.sign.isSome k.first k.first [] ps groups with
    he | ⟨hk, ranges, dash, hne, hm⟩
  · exact .inl he
  · exact .inr ⟨hk, _, ranges, dash, ps, groups, hne, hg, hm⟩

/-- A class that is ended leaves the reader outside, unless a range in it is disordered. -/
theorem run_bracket (h : Outside d s) (k : Bracket) :
    (k.Disordered ∧ ∃ e, run s k.chars = .error e) ∨
    (¬ k.Disordered ∧ ∃ s', run s k.chars = .ok s' ∧ Outside d s') := by
  rw [Bracket.chars, run_append]
  rcases run_opened h k with ⟨hk, e, he⟩ | ⟨hk, negated, ranges, dash, ps, groups, hne, hg, hm⟩
  · refine .inl ⟨hk, e, ?_⟩
    rw [he]
    rfl
  · refine .inr ⟨hk, ?_⟩
    obtain ⟨r, rest, rfl⟩ := List.exists_cons_of_ne_nil hne
    rw [hm]
    exact ⟨_, rfl, hg, _, rfl⟩

theorem refuses_opened (h : Outside d s) (k : Bracket) : Refuses s k.opened := by
  rcases run_opened h k with ⟨-, e, he⟩ | ⟨-, negated, ranges, dash, ps, groups, -, -, hm⟩
  · have hr : Refuses s (k.opened ++ []) := refuses_of_run he
    rwa [List.append_nil] at hr
  · refine ⟨.unclosedClass, ?_⟩
    rw [read, hm]
    rfl

theorem refuses_endless (h : Outside d s)
    (hn : ∀ (k : Bracket) after, '[' :: cs ≠ k.chars ++ after) : Refuses s ('[' :: cs) := by
  rcases bracket_cases cs with ⟨k, after, hk⟩ | ⟨k, hk⟩ | hcs
  · exact absurd hk (hn k after)
  · rw [hk]
    exact refuses_opened h k
  · obtain ⟨ps, groups, -, hs⟩ := step_bracket h
    rw [refuses_cons hs]
    rcases hcs with rfl | rfl | rfl <;> exact ⟨.unclosedClass, rfl⟩

theorem refuses_of_faulty (h : Faulty d cs) (hs : Outside d s) : Refuses s cs := by
  induction h generalizing s with
  | letter hc _ ih =>
    obtain ⟨s', h, hs'⟩ := step_letter hs hc
    exact (refuses_cons h).mpr (ih hs')
  | opening _ ih =>
    obtain ⟨s', h, hs'⟩ := step_opening hs
    exact (refuses_cons h).mpr (ih hs')
  | closing _ ih =>
    obtain ⟨s', h, hs'⟩ := step_closing hs
    exact (refuses_cons h).mpr (ih hs')
  | bracket k _ ih =>
    rcases run_bracket hs k with ⟨-, e, he⟩ | ⟨-, s', h, hs'⟩
    · exact refuses_of_run he
    · exact (refuses_append h).mpr (ih hs')
  | unopened cs => exact refuses_of_step (step_unopened hs)
  | unclosed d => exact (finish_outside hs).mpr d.succ_ne_zero
  | endless d cs hn => exact refuses_endless hs hn
  | disordered d cs k hk =>
    rcases run_bracket hs k with ⟨-, e, he⟩ | ⟨hk', -⟩
    · exact refuses_of_run he
    · exact absurd hk hk'

theorem faulty_of_refuses (h : Refuses s cs) (hs : Outside d s) : Faulty d cs := by
  -- a class is passed over as a whole, so the induction is on the length
  induction hl : cs.length using Nat.strongRecOn generalizing d s cs with
  | ind n ih =>
    subst hl
    cases cs with
    | nil =>
      obtain ⟨d, rfl⟩ := Nat.exists_eq_succ_of_ne_zero ((finish_outside hs).mp h)
      exact .unclosed d
    | cons c cs =>
      by_cases hb : c = '['
      · subst hb
        by_cases hk : ∃ (k : Bracket) (after : List Char), '[' :: cs = k.chars ++ after
        · obtain ⟨k, after, hk⟩ := hk
          rw [hk] at h ⊢
          rcases run_bracket hs k with ⟨hd, -⟩ | ⟨-, s', hr, hs'⟩
          · exact .disordered d after k hd
          · have hlt : after.length < ('[' :: cs).length := by
              rw [hk, Bracket.chars]
              simp only [List.length_append, List.length_singleton]
              omega
            exact .bracket k (ih _ hlt ((refuses_append hr).mp h) hs' rfl)
        · exact .endless d cs fun k after he => hk ⟨k, after, he⟩
      · have hrest {d'} (hstep : ∃ s', step s c = .ok s' ∧ Outside d' s') : Faulty d' cs := by
          obtain ⟨s', hr, hs'⟩ := hstep
          exact ih _ (Nat.lt_succ_self _) ((refuses_cons hr).mp h) hs' rfl
        by_cases ho : c = '\x7b'
        · subst ho
          exact .opening (hrest (step_opening hs))
        · by_cases hc : c = '\x7d'
          · subst hc
            cases d with
            | zero => exact .unopened cs
            | succ d => exact .closing (hrest (step_closing hs))
          · exact .letter ⟨hb, ho, hc⟩ (hrest (step_letter hs ⟨hb, ho, hc⟩))

theorem refuses_iff_faulty (h : Outside d s) : Refuses s cs ↔ Faulty d cs :=
  ⟨fun hr => faulty_of_refuses hr h, fun hf => refuses_of_faulty hf h⟩

end GlobReader

namespace Glob

open GlobReader

theorem compile_eq_error_iff {text : String} {cause : GlobError} :
    compile text = .error cause ↔ GlobReader.read start text.toList = .error cause := by
  have hc : compile text = GlobReader.read start text.toList >>= fun pieces => pure ⟨pieces⟩ := by
    rw [GlobReader.read, bind_assoc]
    rfl
  have he : error? (compile text) = error? (GlobReader.read start text.toList) := by
    rw [hc]
    exact error?_bind_ok rfl fun _ _ => rfl
  rw [← error?_eq_some_iff, he, error?_eq_some_iff]

theorem exists_error_iff (text : String) :
    (∃ cause, compile text = .error cause) ↔ Faulty 0 text.toList := by
  have ho : Outside 0 start := ⟨rfl, _, rfl⟩
  rw [← refuses_iff_faulty ho]
  exact exists_congr fun cause => compile_eq_error_iff

theorem exists_outside (d : Nat) : ∃ s, Outside d s :=
  ⟨⟨.plain, [], List.replicate d ⟨[], []⟩⟩, List.length_replicate, _, rfl⟩

theorem faulty_letter_iff {d : Nat} {c : Char} {cs : List Char}
    (hc : c ≠ '[' ∧ c ≠ '\x7b' ∧ c ≠ '\x7d') : Faulty d (c :: cs) ↔ Faulty d cs := by
  obtain ⟨s, hs⟩ := exists_outside d
  obtain ⟨s', h, hs'⟩ := step_letter hs hc
  rw [← refuses_iff_faulty hs, refuses_cons h, refuses_iff_faulty hs']

theorem faulty_bracket_iff {d : Nat} {k : Bracket} {cs : List Char} (hk : ¬ k.Disordered) :
    Faulty d (k.chars ++ cs) ↔ Faulty d cs := by
  obtain ⟨s, hs⟩ := exists_outside d
  obtain ⟨s', h, hs'⟩ := ((run_bracket hs k).resolve_left fun he => hk he.1).2
  rw [← refuses_iff_faulty hs, refuses_append h, refuses_iff_faulty hs']

end Glob

open Document Node

theorem mistakes_nodesOf {lines : α → List (List Char)} {node : Nat → α → Node} {c : Context}
    {mistakes : α → List Mistake}
    (h : ∀ x here, ((node here x).visits c).flatMap Visit.mistakes = mistakes x)
    (here : Nat) (xs : List α) :
    (visitsAll c (nodesOf lines node here xs)).flatMap Visit.mistakes = xs.flatMap mistakes := by
  induction xs generalizing here with
  | nil => rfl
  | cons x xs ih =>
    rw [nodesOf, laid, visitsAll, List.flatMap_append, h, List.flatMap_cons]
    exact congrArg (mistakes x ++ ·) (ih _)

theorem Command.mistakes_node (c : Command) (here : Nat) :
    ((c.node here).visits .inPattern).flatMap Visit.mistakes = [] := by
  have ha : (c.node here).Arguments c.tokens := rfl
  rw [mistakes_visits, mistakes_run ha rfl (List.cons_ne_nil _ _)]
  rfl

theorem RuleSource.mistakes_node (directory : String) (r : RuleSource) (here : Nat) :
    ((r.node here).visits (.inRoot directory)).flatMap Visit.mistakes =
      r.globs.filterMap (globMistake? (.ofText directory)) := by
  have ha : (r.node here).Arguments r.globs := rfl
  have hb : (r.node here).children.getD [] ≠ [] := laid_ne_nil r.commands_ne
  have hc : (visitsAll .inPattern ((r.node here).children.getD [])).flatMap Visit.mistakes =
      r.commands.flatMap fun _ => [] := mistakes_nodesOf Command.mistakes_node _ r.commands
  rw [mistakes_visits, Context.block, hc, mistakes_pattern ha rfl r.globs_ne hb]
  simp

theorem SectionSource.mistakes_node (s : SectionSource) (here : Nat) :
    ((s.node here).visits .top).flatMap Visit.mistakes =
      s.rules.flatMap fun r => r.globs.filterMap (globMistake? (.ofText s.directory)) := by
  have ha : (s.node here).Arguments [s.directory] := rfl
  have hb : (s.node here).children.getD [] ≠ [] := laid_ne_nil s.rules_ne
  rw [mistakes_visits, mistakes_root ha rfl rfl hb]
  exact mistakes_nodesOf (RuleSource.mistakes_node s.directory) _ s.rules

theorem SectionSource.mem_mistakes_iff {ss : List SectionSource} {m : Mistake} :
    m ∈ (visitsAll .top (nodesOf lines node 0 ss)).flatMap Visit.mistakes ↔
      ∃ s ∈ ss, ∃ r ∈ s.rules, ∃ glob ∈ r.globs, ∃ cause,
        Glob.compile ((Root.ofText s.directory).qualify glob) = .error cause ∧
          m = .badGlob glob cause := by
  rw [mistakes_nodesOf mistakes_node]
  simp only [List.mem_flatMap, List.mem_filterMap, globMistake?_eq_some_iff]

theorem SectionSource.exists_badGlob_iff (ss : List SectionSource) :
    (∃ line glob cause, RuleTable.ofText (text ss) = .error (.badGlob line glob cause)) ↔
      ∃ s ∈ ss, ∃ r ∈ s.rules, ∃ glob ∈ r.globs, ∃ cause,
        Glob.compile ((Root.ofText s.directory).qualify glob) = .error cause := by
  have hr : RuleTable.ofText (text ss) = RuleTable.ofNodes (text ss) (nodesOf lines node 0 ss) := by
    rw [RuleTable.ofText, read?_text]
  have hm : ∀ m ∈ (visitsAll .top (nodesOf lines node 0 ss)).flatMap Visit.mistakes,
      ∃ glob cause, m = .badGlob glob cause := by
    intro m h
    obtain ⟨-, -, -, -, glob, -, cause, -, he⟩ := mem_mistakes_iff.mp h
    exact ⟨glob, cause, he⟩
  rw [hr, RuleTable.exists_badGlob_iff hm]
  constructor
  · intro hne
    obtain ⟨m, h⟩ := List.exists_mem_of_ne_nil _ hne
    obtain ⟨s, hs, r, hr, glob, hg, cause, hc, -⟩ := mem_mistakes_iff.mp h
    exact ⟨s, hs, r, hr, glob, hg, cause, hc⟩
  · rintro ⟨s, hs, r, hr, glob, hg, cause, hc⟩
    exact List.ne_nil_of_mem (mem_mistakes_iff.mpr ⟨s, hs, r, hr, glob, hg, cause, hc, rfl⟩)

namespace Glob

/-- A text is refused as a glob if and only if it has a fault, and a table with nothing else wrong is
refused for a bad glob if and only if one of its globs, as seen from the current directory, has one.
No other glob is ever told of as a bad one. Characters outside classes that are neither `[` nor
braces, and classes that end and are in order, whatever stands in them, play no part. -/
theorem refused_iff_faulty :
    (∀ text, (∃ cause, compile text = .error cause) ↔ Faulty 0 text.toList) ∧
    (∀ ss : List SectionSource,
      (∃ line glob cause,
        RuleTable.ofText (SectionSource.text ss) = .error (.badGlob line glob cause)) ↔
      ∃ s ∈ ss, ∃ r ∈ s.rules, ∃ glob ∈ r.globs,
        Faulty 0 ((Root.ofText s.directory).qualify glob).toList) ∧
    (∀ text line glob cause, RuleTable.ofText text = .error (.badGlob line glob cause) →
      ∃ directory, Faulty 0 ((Root.ofText directory).qualify glob).toList) ∧
    (∀ d c cs, c ≠ '[' ∧ c ≠ '\x7b' ∧ c ≠ '\x7d' → (Faulty d (c :: cs) ↔ Faulty d cs)) ∧
    ∀ d (k : Bracket) cs, ¬ k.Disordered → (Faulty d (k.chars ++ cs) ↔ Faulty d cs) := by
  refine ⟨exists_error_iff, ?_, ?_, fun _ _ _ => faulty_letter_iff, fun _ _ _ => faulty_bracket_iff⟩
  · intro ss
    simp only [SectionSource.exists_badGlob_iff, exists_error_iff]
  · intro text line glob cause h
    rw [RuleTable.ofText] at h
    split at h
    · obtain ⟨directory, hc⟩ := RuleTable.exists_of_badGlob h
      exact ⟨directory, (exists_error_iff _).mp ⟨cause, hc⟩⟩
    · cases h

def zToA : Bracket where
  sign := none
  first := 'z'
  others := ['-', 'a']
  signs := by simp
  unsigned := by decide
  inside := by decide

def backslashed : Bracket where
  sign := some '^'
  first := ']'
  others := ['\\']
  signs := by simp
  unsigned := by simp
  inside := by decide

def faultySource : List SectionSource :=
  [⟨"web/", [⟨["*.md", "\x7b[z-a],\u00e9\x7d"], [⟨"lint", ["$@"]⟩], by simp, by simp⟩], by simp⟩]

theorem refused_iff_faulty_web :
    Faulty 0 "web/\x7b[z-a],\u00e9\x7d".toList ∧
    (∃ cause, compile "web/\x7b[z-a],\u00e9\x7d" = .error cause) ∧
    (∃ line glob cause,
      RuleTable.ofText (SectionSource.text faultySource) = .error (.badGlob line glob cause) ∧
      ∃ directory, Faulty 0 ((Root.ofText directory).qualify glob).toList) ∧
    (Faulty 0 ['\\', '\x7d'] ↔ Faulty 0 ['\x7d']) ∧
    ¬ backslashed.Disordered ∧ (Faulty 0 (backslashed.chars ++ ['\x7d']) ↔ Faulty 0 ['\x7d']) := by
  obtain ⟨compiles, loads, told, letters, brackets⟩ := refused_iff_faulty
  have hz : zToA.Disordered := ⟨('z', 'a'), List.mem_singleton_self _, by decide⟩
  have hf : Faulty 0 "web/\x7b[z-a],\u00e9\x7d".toList :=
    .letter (by decide) (.letter (by decide) (.letter (by decide) (.letter (by decide)
      (.opening (.disordered 1 [',', '\u00e9', '\x7d'] zToA hz)))))
  have hb : ¬ backslashed.Disordered := by
    rintro ⟨r, hr, hlt⟩
    cases hr
  obtain ⟨line, glob, cause, h⟩ := (loads faultySource).mpr
    ⟨_, List.mem_singleton_self _, _, List.mem_singleton_self _, _,
      List.mem_cons_of_mem _ (List.mem_singleton_self _), hf⟩
  exact ⟨hf, (compiles _).mpr hf, ⟨line, glob, cause, h, told _ line glob cause h⟩,
    letters _ _ _ (by decide), hb, brackets _ _ _ hb⟩

end Glob

end EditHook
