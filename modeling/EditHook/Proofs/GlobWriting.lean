import EditHook.Proofs.GlobSteps
import EditHook.Proofs.GlobOpening

/-! Globs as they are written, without braces: their characters, the byte strings that they stand for
and the pieces that spell these. Components of two stars stand in runs, and each run takes the
separators around it with it. -/

namespace EditHook

namespace Glob

/-- The members of a class and the ranges they list, last first. A `-` between two members makes a
range of the one before it, also where that is a range already. -/
inductive Lists : List Char → List (Char × Char) → Prop where
  | first (c : Char) : Lists [c] [(c, c)]
  | single {cs rs c} : Lists cs rs → c ≠ ']' → c ≠ '-' → Lists (cs ++ [c]) ((c, c) :: rs)
  | range {cs lo hi rs c} : Lists cs ((lo, hi) :: rs) → c ≠ ']' → lo ≤ c →
      Lists (cs ++ ['-', c]) ((lo, c) :: rs)

theorem Lists.ne_nil {cs : List Char} {rs : List (Char × Char)} (h : Lists cs rs) :
    cs ≠ [] ∧ rs ≠ [] := by
  cases h <;> simp

theorem Lists.mem {cs : List Char} {rs : List (Char × Char)} (h : Lists cs rs) :
    ∀ r ∈ rs, r.1 ∈ cs ∧ r.2 ∈ cs := by
  induction h with
  | first c => simp
  | single _ _ _ ih =>
    intro r hr
    rcases List.mem_cons.mp hr with rfl | hr
    · simp
    · exact (ih r hr).imp (List.mem_append_left _) (List.mem_append_left _)
  | range _ _ _ ih =>
    intro r hr
    rcases List.mem_cons.mp hr with rfl | hr
    · exact ⟨List.mem_append_left _ (ih _ List.mem_cons_self).1, by simp⟩
    · have hm := ih r (List.mem_cons_of_mem _ hr)
      exact hm.imp (List.mem_append_left _) (List.mem_append_left _)

structure CharClass where
  sign : Option Char
  members : List Char
  ranges : List (Char × Char)
  /-- A `-` with nothing but the end of the class behind it is a member. -/
  dash : Bool
  signs : ∀ c ∈ sign, c = '!' ∨ c = '^'
  unsigned : sign = none → ∀ c ∈ members.head?, c ≠ '!' ∧ c ≠ '^'
  lists : Lists members ranges

namespace CharClass

def chars (k : CharClass) : List Char :=
  '[' :: k.sign.toList ++ k.members ++ (if k.dash then ['-'] else []) ++ [']']

def Ascii (k : CharClass) : Prop :=
  ∀ c ∈ k.members, c.toNat < 0x80

def Has (k : CharClass) (b : UInt8) : Prop :=
  (∃ r ∈ k.ranges, r.1.toNat ≤ b.toNat ∧ b.toNat ≤ r.2.toNat) ∨ k.dash = true ∧ b.toNat = '-'.toNat

def Reads (k : CharClass) (w : List UInt8) : Prop :=
  ∃ b, w = [b] ∧ (k.Has b ↔ k.sign = none)

def piece (k : CharClass) : Piece :=
  .charSet k.sign.isSome (if k.dash then ('-', '-') :: k.ranges else k.ranges).reverse

end CharClass

/-- A part of a component. -/
inductive Mark where
  | letter (c : Char) (plain : GlobReader.Plain c) (inside : c ≠ '/')
  | one
  | star
  | oneOf (k : CharClass)

namespace Mark

def chars : Mark → List Char
  | letter c _ _ => [c]
  | one => ['?']
  | star => ['*']
  | oneOf k => k.chars

def Ascii : Mark → Prop
  | oneOf k => k.Ascii
  | _ => True

def Reads : Mark → List UInt8 → Prop
  | letter c _ _, w => w = String.utf8EncodeChar c
  | one, w => ∃ b, w = [b]
  | star, _ => True
  | oneOf k, w => k.Reads w

def piece : Mark → Piece
  | letter c _ _ => .literal c
  | one => .one
  | star => .star
  | oneOf k => k.piece

def AllRead : List Mark → List UInt8 → Prop
  | [], w => w = []
  | m :: ms, w => ∃ u v, w = u ++ v ∧ m.Reads u ∧ AllRead ms v

end Mark

/-- What stands between separators, unless it is two stars alone. -/
structure Component where
  marks : List Mark
  named : marks ≠ [.star, .star]

namespace Component

def chars (c : Component) : List Char :=
  c.marks.flatMap Mark.chars

def Ascii (c : Component) : Prop :=
  ∀ m ∈ c.marks, m.Ascii

def Reads (c : Component) : List UInt8 → Prop :=
  Mark.AllRead c.marks

def pieces (c : Component) : List Piece :=
  c.marks.map Mark.piece

end Component

/-- A glob from a separator on. -/
inductive Tail where
  | done
  | component (c : Component) (rest : Tail)
  /-- A run of `n + 1` components of two stars and what follows it. -/
  | between (n : Nat) (c : Component) (rest : Tail)
  | trailing (n : Nat)

namespace Tail

def chars : Tail → List Char
  | done => []
  | component c rest => '/' :: (c.chars ++ rest.chars)
  | between n c rest => '/' :: (GlobReader.starComponents (n + 1) ++ (c.chars ++ rest.chars))
  | trailing n => '/' :: (GlobReader.starComponents n ++ ['*', '*'])

def Ascii : Tail → Prop
  | component c rest => c.Ascii ∧ rest.Ascii
  | between _ c rest => c.Ascii ∧ rest.Ascii
  | _ => True

def Reads : Tail → List UInt8 → Prop
  | done, w => w = []
  | component c rest, w => ∃ u v, w = 0x2F :: (u ++ v) ∧ c.Reads u ∧ rest.Reads v
  | between _ c rest, w => ∃ x u v, w = x ++ (u ++ v) ∧
      (x = [0x2F] ∨ ∃ y, x = 0x2F :: y ++ [0x2F]) ∧ c.Reads u ∧ rest.Reads v
  | trailing _, w => ∃ v, w = 0x2F :: v

def pieces : Tail → List Piece
  | done => []
  | component c rest => .literal '/' :: (c.pieces ++ rest.pieces)
  | between _ c rest => .between :: (c.pieces ++ rest.pieces)
  | trailing _ => [.trailing]

end Tail

/-- A glob without braces. -/
inductive Written where
  | component (c : Component) (rest : Tail)
  | leading (n : Nat) (c : Component) (rest : Tail) (more : c.marks ≠ [] ∨ rest ≠ .done)
  | all (n : Nat)
  | allBelow (n : Nat)

namespace Written

def chars : Written → List Char
  | component c rest => c.chars ++ rest.chars
  | leading n c rest _ => GlobReader.starComponents (n + 1) ++ (c.chars ++ rest.chars)
  | all n => GlobReader.starComponents n ++ ['*', '*']
  | allBelow n => GlobReader.starComponents (n + 1)

def Ascii : Written → Prop
  | component c rest => c.Ascii ∧ rest.Ascii
  | leading _ c rest _ => c.Ascii ∧ rest.Ascii
  | _ => True

def Reads : Written → List UInt8 → Prop
  | component c rest, w => ∃ u v, w = u ++ v ∧ c.Reads u ∧ rest.Reads v
  | leading _ c rest _, w => ∃ x u v, w = x ++ (u ++ v) ∧
      (x = [] ∨ ∃ y, x = y ++ [0x2F]) ∧ c.Reads u ∧ rest.Reads v
  | all _, _ => True
  | allBelow _, _ => True

def pieces : Written → List Piece
  | component c rest => c.pieces ++ rest.pieces
  | leading _ c rest _ => .leading :: (c.pieces ++ rest.pieces)
  | all _ => [.leading]
  | allBelow _ => [.leading]

end Written

def Marked (cs : List Char) : Prop :=
  ∃ (front : List (List Mark)) (last : List Mark),
    cs = front.flatMap (fun c => c.flatMap Mark.chars ++ ['/']) ++ last.flatMap Mark.chars

theorem Marked.mark {cs : List Char} (h : Marked cs) (m : Mark) : Marked (cs ++ m.chars) := by
  obtain ⟨front, last, rfl⟩ := h
  exact ⟨front, last ++ [m], by simp⟩

theorem Marked.slash {cs : List Char} (h : Marked cs) : Marked (cs ++ ['/']) := by
  obtain ⟨front, last, rfl⟩ := h
  exact ⟨front ++ [last], [], by simp⟩

theorem chars_twoStars : [Mark.star, Mark.star].flatMap Mark.chars = ['*', '*'] :=
  rfl

theorem Tail.exists_cons (c : List Mark) (t : Tail) :
    ∃ t' : Tail, t'.chars = '/' :: (c.flatMap Mark.chars ++ t.chars) := by
  by_cases hc : c = [.star, .star]
  · -- two stars start a run, or make the one behind them longer
    rw [hc, chars_twoStars]
    cases t with
    | done => exact ⟨.trailing 0, rfl⟩
    | component c rest => exact ⟨.between 0 c rest, rfl⟩
    | between n c rest =>
      exact ⟨.between (n + 1) c rest, by simp [chars, GlobReader.starComponents_cons]⟩
    | trailing n => exact ⟨.trailing (n + 1), by simp [chars, GlobReader.starComponents_cons]⟩
  · exact ⟨.component ⟨c, hc⟩ t, rfl⟩

theorem Tail.exists_of_marks (front : List (List Mark)) (last : List Mark) :
    ∃ t : Tail, t.chars = '/' :: (front.flatMap (fun c => c.flatMap Mark.chars ++ ['/']) ++
      last.flatMap Mark.chars) := by
  induction front with
  | nil =>
    obtain ⟨t, ht⟩ := exists_cons last .done
    exact ⟨t, by simpa [chars] using ht⟩
  | cons c front ih =>
    obtain ⟨t, ht⟩ := ih
    obtain ⟨t', ht'⟩ := exists_cons c t
    exact ⟨t', by simp [ht', ht]⟩

theorem Written.exists_starRun (n : Nat) (c : Component) (rest : Tail) :
    ∃ p : Written, p.chars = GlobReader.starComponents (n + 1) ++ (c.chars ++ rest.chars) := by
  by_cases hm : c.marks ≠ [] ∨ rest ≠ .done
  · exact ⟨.leading n c rest hm, rfl⟩
  · obtain ⟨hc, rfl⟩ : c.marks = [] ∧ rest = .done := by simpa using hm
    exact ⟨.allBelow n, by simp [chars, Tail.chars, Component.chars, hc]⟩

theorem Written.exists_cons (c : List Mark) (t : Tail) :
    ∃ p : Written, p.chars = c.flatMap Mark.chars ++ t.chars := by
  by_cases hc : c = [.star, .star]
  · rw [hc, chars_twoStars]
    cases t with
    | done => exact ⟨.all 0, rfl⟩
    | component c rest => exact exists_starRun 0 c rest
    | between n c rest =>
      obtain ⟨p, hp⟩ := exists_starRun (n + 1) c rest
      exact ⟨p, by simp [hp, Tail.chars, GlobReader.starComponents_cons]⟩
    | trailing n => exact ⟨.all (n + 1), by simp [chars, Tail.chars, GlobReader.starComponents_cons]⟩
  · exact ⟨.component ⟨c, hc⟩ t, rfl⟩

theorem Marked.exists_written {cs : List Char} (h : Marked cs) : ∃ p : Written, p.chars = cs := by
  obtain ⟨front, last, rfl⟩ := h
  cases front with
  | nil =>
    obtain ⟨p, hp⟩ := Written.exists_cons last .done
    exact ⟨p, by simpa [Tail.chars] using hp⟩
  | cons c front =>
    obtain ⟨t, ht⟩ := Tail.exists_of_marks front last
    obtain ⟨p, hp⟩ := Written.exists_cons c t
    exact ⟨p, by simp [hp, ht]⟩

end Glob

namespace Piece

theorem byteRanges_ascii {lo hi : Char} (hl : lo.toNat < 0x80) (hh : hi.toNat < 0x80) :
    byteRanges lo hi = [(UInt8.ofNat lo.toNat, UInt8.ofNat hi.toNat)] := by
  by_cases he : lo = hi
  · subst he
    simp [byteRanges, encodeChar_ascii hl]
  · simp [byteRanges, he, encodeChar_ascii hl, encodeChar_ascii hh]

def InRange (b : UInt8) (r : Char × Char) : Prop :=
  ∃ i ∈ byteRanges r.1 r.2, i.1 ≤ b ∧ b ≤ i.2

theorem inRange_ascii {b : UInt8} {r : Char × Char} (hl : r.1.toNat < 0x80)
    (hh : r.2.toNat < 0x80) : InRange b r ↔ r.1.toNat ≤ b.toNat ∧ b.toNat ≤ r.2.toNat := by
  simp [InRange, byteRanges_ascii hl hh, UInt8.le_iff_toNat_le, toNat_ascii hl, toNat_ascii hh]

theorem word_charSet_iff {negated : Bool} {ranges : List (Char × Char)} (w : List UInt8) :
    (charSet negated ranges).Word w ↔
      ∃ b, w = [b] ∧ ((∃ r ∈ ranges, InRange b r) ↔ negated = false) := by
  have hin (b : UInt8) :
      ((ranges.flatMap fun r => byteRanges r.1 r.2).any fun r => r.1 ≤ b && b ≤ r.2) = true ↔
        ∃ r ∈ ranges, InRange b r := by
    simp [InRange]
  simp only [Word, shape, Shape.Denotes, ByteSet.contains]
  refine exists_congr fun b => ?_
  rw [and_comm, ← hin b]
  refine and_congr_right fun _ => ?_
  cases List.any _ _ <;> cases negated <;> simp

end Piece

namespace Glob

theorem CharClass.word_iff_of_inRange {k : CharClass} {w : List UInt8}
    (h : ∀ b, w = [b] → ∀ r, r = ('-', '-') ∨ r ∈ k.ranges →
      (Piece.InRange b r ↔ r.1.toNat ≤ b.toNat ∧ b.toNat ≤ r.2.toNat)) :
    k.piece.Word w ↔ k.Reads w := by
  rw [piece, Piece.word_charSet_iff, Reads]
  refine exists_congr fun b => and_congr_right fun hw => ?_
  have hs : k.sign.isSome = false ↔ k.sign = none := by simp
  have hdash : '-'.toNat ≤ b.toNat ∧ b.toNat ≤ '-'.toNat ↔ b.toNat = '-'.toNat := by omega
  have hranges : (∃ r ∈ k.ranges, Piece.InRange b r) ↔
      ∃ r ∈ k.ranges, r.1.toNat ≤ b.toNat ∧ b.toNat ≤ r.2.toNat :=
    exists_congr fun r => and_congr_right fun hr => h b hw r (.inr hr)
  rw [hs]
  refine iff_congr ?_ Iff.rfl
  cases hd : k.dash with
  | false => simp [Has, hd, hranges]
  | true =>
    simp only [Has, hd, if_true, List.mem_reverse, List.mem_cons, or_and_right, exists_or,
      exists_eq_left, h b hw _ (.inl rfl), hdash, hranges, true_and]
    exact or_comm

theorem CharClass.word_iff {k : CharClass} (ha : k.Ascii) (w : List UInt8) :
    k.piece.Word w ↔ k.Reads w := by
  refine word_iff_of_inRange fun b _ r hr => ?_
  rcases hr with rfl | hr
  · exact Piece.inRange_ascii (by decide) (by decide)
  · exact Piece.inRange_ascii (ha _ (k.lists.mem r hr).1) (ha _ (k.lists.mem r hr).2)

theorem Mark.word_iff {m : Mark} (ha : m.Ascii) (w : List UInt8) : m.piece.Word w ↔ m.Reads w := by
  cases m with
  | letter c => exact Piece.word_literal c w
  | one => simp [piece, Piece.Word, Piece.shape, Shape.Denotes, ByteSet.contains, ByteSet.all, Reads]
  | star => exact Iff.rfl
  | oneOf k => exact CharClass.word_iff ha w

theorem Mark.spells_iff {ms : List Mark} (ha : ∀ m ∈ ms, m.Ascii) (w : List UInt8) :
    Piece.Spells (ms.map piece) w ↔ AllRead ms w := by
  induction ms generalizing w with
  | nil => rfl
  | cons m ms ih =>
    obtain ⟨hm, ha⟩ := List.forall_mem_cons.mp ha
    simp only [List.map_cons, Piece.Spells, AllRead, word_iff hm, ih ha]

theorem Component.spells_iff {c : Component} (ha : c.Ascii) (w : List UInt8) :
    Piece.Spells c.pieces w ↔ c.Reads w :=
  Mark.spells_iff ha w

theorem Tail.spells_iff {t : Tail} (ha : t.Ascii) (w : List UInt8) :
    Piece.Spells t.pieces w ↔ t.Reads w := by
  induction t generalizing w with
  | done => rfl
  | component c rest ih =>
    simp only [pieces, Piece.Spells, Piece.spells_append, Piece.word_literal, Reads,
      Component.spells_iff ha.1, ih ha.2]
    constructor
    · rintro ⟨_, _, rfl, rfl, u, v, rfl, hu, hv⟩
      exact ⟨u, v, rfl, hu, hv⟩
    · rintro ⟨u, v, rfl, hu, hv⟩
      exact ⟨_, _, rfl, rfl, u, v, rfl, hu, hv⟩
  | between n c rest ih =>
    simp only [pieces, Piece.Spells, Piece.spells_append, Piece.word_between_iff, Reads,
      Component.spells_iff ha.1, ih ha.2]
    constructor
    · rintro ⟨x, _, rfl, hx, u, v, rfl, hu, hv⟩
      exact ⟨x, u, v, rfl, hx, hu, hv⟩
    · rintro ⟨x, u, v, rfl, hx, hu, hv⟩
      exact ⟨x, _, rfl, hx, u, v, rfl, hu, hv⟩
  | trailing n => simp [pieces, Piece.Spells, Piece.word_trailing_iff, Reads]

theorem Component.leading_notMem (c : Component) : .leading ∉ c.pieces := by
  intro h
  obtain ⟨m, -, hm⟩ := List.mem_map.mp h
  cases m <;> cases hm

theorem Tail.leading_notMem (t : Tail) : .leading ∉ t.pieces := by
  induction t with
  | done => simp [pieces]
  | component c rest ih => simp [pieces, c.leading_notMem, ih]
  | between n c rest ih => simp [pieces, c.leading_notMem, ih]
  | trailing n => simp [pieces]

theorem Tail.pieces_eq_nil {t : Tail} (h : t.pieces = []) : t = .done := by
  cases t <;> simp_all [pieces]

theorem Written.accepts_iff_reads {p : Written} (ha : p.Ascii) (path : String) :
    (Glob.mk p.pieces).accepts path = true ↔ p.Reads (utf8 path) := by
  rw [accepts_iff]
  cases p with
  | component c rest =>
    have hne : c.pieces ++ rest.pieces ≠ [.leading] := by
      intro he
      have hm : Piece.leading ∈ c.pieces ++ rest.pieces := by simp [he]
      simp [c.leading_notMem, rest.leading_notMem] at hm
    simp only [pieces, hne, false_or, Reads, Piece.spells_append, Component.spells_iff ha.1,
      Tail.spells_iff ha.2]
  | leading n c rest more =>
    have hne : Piece.leading :: (c.pieces ++ rest.pieces) ≠ [.leading] := by
      intro he
      obtain ⟨hc, hr⟩ := List.append_eq_nil_iff.mp (List.cons.inj he).2
      rcases more with hm | hm
      · exact hm (List.map_eq_nil_iff.mp hc)
      · exact hm (Tail.pieces_eq_nil hr)
    simp only [pieces, hne, false_or, Reads, Piece.Spells, Piece.spells_append,
      Component.spells_iff ha.1, Tail.spells_iff ha.2, Piece.word_leading_iff]
    constructor
    · rintro ⟨x, _, he, hx, u, v, rfl, hu, hv⟩
      exact ⟨x, u, v, he, hx, hu, hv⟩
    · rintro ⟨x, u, v, he, hx, hu, hv⟩
      exact ⟨x, _, he, hx, u, v, rfl, hu, hv⟩
  | all n => simp [pieces, Reads]
  | allBelow n => simp [pieces, Reads]

end Glob

end EditHook
