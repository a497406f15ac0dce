import EditHook.Proofs.GlobReading
import EditHook.Proofs.Utf8Text

/-! Globs of single stars and other marks, read character by character. The matcher goes by bytes: a
question mark and a class each take one, so a character of several bytes in such a place is not met.
Everywhere else the bytes of a path can only be taken character by character. -/

namespace EditHook

namespace Glob

def CharClass.Holds (k : CharClass) (c : Char) : Prop :=
  (∃ r ∈ k.ranges, r.1 ≤ c ∧ c ≤ r.2) ∨ k.dash = true ∧ c = '-'

/-- The texts a mark stands for when it goes by characters. -/
def Mark.Matches : Mark → List Char → Prop
  | letter c _ _, cs => cs = [c]
  | one, cs => ∃ c, cs = [c]
  | star, _ => True
  | oneOf k, cs => ∃ c, cs = [c] ∧ (k.Holds c ↔ k.sign = none)

inductive Part where
  | separator
  | mark (m : Mark)

namespace Part

def chars : Part → List Char
  | separator => ['/']
  | mark m => m.chars

def piece : Part → Piece
  | separator => .literal '/'
  | mark m => m.piece

def Matches : Part → List Char → Prop
  | separator, cs => cs = ['/']
  | mark m, cs => m.Matches cs

def isStar : Part → Bool
  | mark .star => true
  | _ => false

/-- A part in whose place several characters may stand. -/
def Varies : Part → Prop
  | mark .one => True
  | mark (.oneOf _) => True
  | _ => False

/-- A part that goes by characters on every path. -/
def Exact : Part → Prop
  | mark .one => False
  | mark (.oneOf k) => k.sign = none ∧ k.Ascii
  | _ => True

/-- What parts in a row stand for. -/
def AllMatch : List Part → List Char → Prop
  | [], cs => cs = []
  | p :: ps, cs => ∃ u v, cs = u ++ v ∧ p.Matches u ∧ AllMatch ps v

/-- No star stands beside another one. -/
def Spaced (ps : List Part) : Prop :=
  ps.IsChain fun p q => ¬ (p.isStar = true ∧ q.isStar = true)

theorem eq_star {p : Part} (h : p.isStar = true) : p = .mark .star := by
  cases p with
  | separator => cases h
  | mark m => cases m <;> first | rfl | cases h

end Part

end Glob

namespace GlobReader

open Glob

theorem run_part {p : Part} (h : p.isStar = false) (ps : List Piece) :
    run ⟨.plain, ps, []⟩ p.chars = .ok ⟨.plain, p.piece :: ps, []⟩ := by
  cases p with
  | separator => rfl
  | mark m =>
    refine run_mark fun hm => ?_
    subst hm
    cases h

theorem part_head {p : Part} (h : p.isStar = false) (cs : List Char) :
    (p.chars ++ cs).head? ≠ some '*' := by
  cases p with
  | separator => simp [Part.chars]
  | mark m =>
    obtain ⟨c, ds, hc, -, hne⟩ := marks_head m [] cs
    rw [List.flatMap_singleton] at hc
    rw [Part.chars, hc]
    have hm : m ≠ .star := by
      rintro rfl
      cases h
    simpa using hne hm

theorem read_parts {ps : List Part} (h : Part.Spaced ps) (earlier : List Piece) :
    read ⟨.plain, earlier, []⟩ (ps.flatMap Part.chars) =
      .ok (earlier.reverse ++ ps.map Part.piece) := by
  induction ps generalizing earlier with
  | nil =>
    rw [List.map_nil, List.append_nil]
    rfl
  | cons p ps ih =>
    have hrest := ih (List.IsChain.of_cons h) (p.piece :: earlier)
    rw [List.flatMap_cons, List.map_cons]
    have hp : read ⟨.plain, earlier, []⟩ (p.chars ++ ps.flatMap Part.chars) =
        read ⟨.plain, p.piece :: earlier, []⟩ (ps.flatMap Part.chars) := by
      cases hs : p.isStar with
      | false => exact read_append (run_part hs earlier)
      | true =>
        obtain rfl := Part.eq_star hs
        have hstar : read ⟨.plain, earlier, []⟩ ('*' :: ps.flatMap Part.chars) =
            read ⟨.star, earlier, []⟩ (ps.flatMap Part.chars) := read_cons rfl
        refine hstar.trans (read_star_settled ?_)
        cases ps with
        | nil => simp
        | cons q qs =>
          have hq : q.isStar = false := by
            have hpq := (List.isChain_cons_cons.mp h).1
            simpa [hs] using hpq
          exact part_head hq _
    rw [hp, hrest]
    simp

end GlobReader

namespace Piece

variable {b x : UInt8} {c lo hi : Char}

theorem le_encodeChar (hx : x ∈ String.utf8EncodeChar c) (hb : b.toNat < 0x80) :
    (x ≤ b ↔ c.toNat ≤ b.toNat) ∧ (b ≤ x ↔ b.toNat ≤ c.toNat) := by
  rw [UInt8.le_iff_toNat_le, UInt8.le_iff_toNat_le]
  by_cases hx' : x.toNat < 0x80
  · rw [toNat_of_mem_encodeChar hx hx']
    exact ⟨Iff.rfl, Iff.rfl⟩
  · have hc : ¬ c.toNat < 0x80 := by
      intro hc
      rw [encodeChar_ascii hc, List.mem_singleton] at hx
      rw [hx, toNat_ascii hc] at hx'
      exact hx' hc
    omega

theorem inRange_of_lt (hb : b.toNat < 0x80) :
    InRange b (lo, hi) ↔ lo.toNat ≤ b.toNat ∧ b.toNat ≤ hi.toNat := by
  have hlow : (String.utf8EncodeChar lo).getLastD 0 ∈ String.utf8EncodeChar lo := by
    rw [List.getLastD_eq_getLast?, List.getLast?_eq_some_getLast String.utf8EncodeChar_ne_nil]
    exact List.getLast_mem _
  have hhigh : (String.utf8EncodeChar hi).headD 0 ∈ String.utf8EncodeChar hi := by
    rw [List.headD_eq_head?_getD, List.head?_eq_some_head String.utf8EncodeChar_ne_nil]
    exact List.head_mem _
  have ascii {c : Char} (hc : c.toNat ≤ b.toNat) := encodeChar_ascii (Nat.lt_of_le_of_lt hc hb)
  simp only [InRange, byteRanges]
  by_cases he : lo = hi
  · subst he
    simp only [if_true, List.mem_map]
    constructor
    · rintro ⟨_, ⟨x, hx, rfl⟩, hle⟩
      exact hle.imp (le_encodeChar hx hb).1.mp (le_encodeChar hx hb).2.mp
    · intro hle
      exact ⟨_, ⟨_, hlow, rfl⟩, hle.imp (le_encodeChar hlow hb).1.mpr (le_encodeChar hlow hb).2.mpr⟩
  · simp only [if_neg he, List.mem_append, List.mem_cons, List.mem_map]
    constructor
    · rintro ⟨_, ⟨x, hx, rfl⟩ | rfl | ⟨x, hx, rfl⟩, hle⟩
      -- a character of the lower half has no bytes but its first and last one
      · have hlo := (le_encodeChar (List.dropLast_subset _ hx) hb).1.mp hle.1
        simp [ascii hlo] at hx
      · exact hle.imp (le_encodeChar hlow hb).1.mp (le_encodeChar hhigh hb).2.mp
      · have hhi := (le_encodeChar (List.mem_of_mem_tail hx) hb).1.mp hle.1
        simp [ascii hhi] at hx
    · intro hle
      exact ⟨_, .inr (.inl rfl),
        hle.imp (le_encodeChar hlow hb).1.mpr (le_encodeChar hhigh hb).2.mpr⟩

end Piece

namespace Glob

theorem CharClass.has_ascii {k : CharClass} {c : Char} (hc : c.toNat < 0x80) :
    k.Has (UInt8.ofNat c.toNat) ↔ k.Holds c := by
  have hdash : c.toNat = '-'.toNat ↔ c = '-' := Char.toNat_inj
  rw [Has, Holds, toNat_ascii hc, hdash]
  rfl

theorem CharClass.lt_of_has {k : CharClass} {b : UInt8} (ha : k.Ascii) (h : k.Has b) :
    b.toNat < 0x80 := by
  rcases h with ⟨r, hr, -, hle⟩ | ⟨-, hd⟩
  · exact Nat.lt_of_le_of_lt hle (ha _ (k.lists.mem r hr).2)
  · rw [hd]
    decide

theorem CharClass.lt_of_holds {k : CharClass} {c : Char} (ha : k.Ascii) (h : k.Holds c) :
    c.toNat < 0x80 := by
  rcases h with ⟨r, hr, -, hle⟩ | ⟨-, rfl⟩
  · exact Nat.lt_of_le_of_lt hle (ha _ (k.lists.mem r hr).2)
  · decide

theorem CharClass.word_encode_of_ascii {k : CharClass} {cs : List Char}
    (hc : ∀ c ∈ cs, c.toNat < 0x80) :
    k.piece.Word (cs.flatMap String.utf8EncodeChar) ↔
      ∃ c, cs = [c] ∧ (k.Holds c ↔ k.sign = none) := by
  rw [encode_ascii hc]
  have hlt {b : UInt8} (hb : cs.map (fun c => UInt8.ofNat c.toNat) = [b]) : b.toNat < 0x80 := by
    obtain ⟨c, rfl, rfl⟩ := List.map_eq_singleton_iff.mp hb
    have hc := hc c List.mem_cons_self
    rwa [toNat_ascii hc]
  rw [word_iff_of_inRange fun b hb r _ => Piece.inRange_of_lt (hlt hb)]
  simp only [Reads, List.map_eq_singleton_iff]
  constructor
  · rintro ⟨_, ⟨c, rfl, rfl⟩, hh⟩
    exact ⟨c, rfl, by rwa [← has_ascii (hc c List.mem_cons_self)]⟩
  · rintro ⟨c, rfl, hh⟩
    exact ⟨_, ⟨c, rfl, rfl⟩, by rwa [has_ascii (hc c List.mem_cons_self)]⟩

namespace Part

variable {p : Part} {ps : List Part} {c : Char} {cs : List Char} {u v x : List UInt8}

theorem word_star (hs : p.isStar = true) (w : List UInt8) : p.piece.Word w :=
  eq_star hs ▸ trivial

theorem word_literal_encode (c : Char) (cs : List Char) :
    (Piece.literal c).Word (cs.flatMap String.utf8EncodeChar) ↔ cs = [c] := by
  have hc : String.utf8EncodeChar c = [c].flatMap String.utf8EncodeChar :=
    (List.flatMap_singleton _ _).symm
  rw [Piece.word_literal, hc, encode_inj]

theorem word_encode_of_ascii (hc : ∀ c ∈ cs, c.toNat < 0x80) :
    p.piece.Word (cs.flatMap String.utf8EncodeChar) ↔ p.Matches cs := by
  match p with
  | separator => exact word_literal_encode '/' cs
  | mark (.letter c _ _) => exact word_literal_encode c cs
  | mark .star => exact Iff.rfl
  | mark .one =>
    have hw := Mark.word_iff (m := .one) trivial (cs.flatMap String.utf8EncodeChar)
    refine hw.trans ?_
    rw [encode_ascii hc]
    simp only [Mark.Reads, Matches, Mark.Matches, List.map_eq_singleton_iff]
    constructor
    · rintro ⟨_, c, rfl, -⟩
      exact ⟨c, rfl⟩
    · rintro ⟨c, rfl⟩
      exact ⟨_, c, rfl, rfl⟩
  | mark (.oneOf k) => exact CharClass.word_encode_of_ascii hc

theorem word_encode (h : (∀ c ∈ cs, c.toNat < 0x80) ∨ p.Exact) :
    p.piece.Word (cs.flatMap String.utf8EncodeChar) ↔ p.Matches cs := by
  rcases h with h | h
  · exact word_encode_of_ascii h
  match p, h with
  | separator, _ => exact word_literal_encode '/' cs
  | mark (.letter c _ _), _ => exact word_literal_encode c cs
  | mark .star, _ => exact Iff.rfl
  | mark (.oneOf k), ⟨hs, ha⟩ =>
    -- without a sign the class has only characters of one byte, whichever way it is read
    constructor
    · intro hw
      obtain ⟨b, hb, hh⟩ := (CharClass.word_iff ha _).mp hw
      have hlt := CharClass.lt_of_has ha (hh.mpr hs)
      refine (word_encode_of_ascii fun c hc => ?_).mp hw
      obtain ⟨y, bs, hy, -⟩ := encodeChar_eq_cons c
      have hm : y ∈ cs.flatMap String.utf8EncodeChar :=
        List.mem_flatMap.mpr ⟨c, hc, by simp [hy]⟩
      obtain rfl : y = b := by simpa [hb] using hm
      rwa [toNat_of_mem_encodeChar (by simp [hy]) hlt]
    · intro hm
      obtain ⟨c, rfl, hh⟩ := hm
      have hlt := CharClass.lt_of_holds ha (hh.mpr hs)
      exact (word_encode_of_ascii (by simpa using hlt)).mpr ⟨c, rfl, hh⟩

theorem exists_char_of_word (he : p.Exact) (hs : p.isStar = false) (hu : p.piece.Word u) :
    ∃ c, u = String.utf8EncodeChar c := by
  match p, he with
  | separator, _ => exact ⟨'/', (Piece.word_literal '/' u).mp hu⟩
  | mark (.letter c _ _), _ => exact ⟨c, (Piece.word_literal c u).mp hu⟩
  | mark (.oneOf k), ⟨hsign, ha⟩ =>
    obtain ⟨b, rfl, hh⟩ := (CharClass.word_iff ha _).mp hu
    have hlt := CharClass.lt_of_has ha (hh.mpr hsign)
    exact ⟨Char.ofNat b.toNat, (Decoded.encodeChar_one hlt).symm⟩

theorem spells_of_no_first (he : ∀ p ∈ ps, p.Exact) (hx : ∀ b ∈ x, ¬ b.IsUTF8FirstByte)
    (h : Piece.Spells (ps.map piece) (x ++ v)) : Piece.Spells (ps.map piece) v := by
  induction ps generalizing x v with
  | nil => exact (List.append_eq_nil_iff.mp h).2
  | cons p ps ih =>
    obtain ⟨hp, he⟩ := List.forall_mem_cons.mp he
    obtain ⟨u, w, hw, hu, hrest⟩ := h
    cases hs : p.isStar with
    | true =>
      -- a star that starts inside a character may as well start behind it
      rcases List.append_eq_append_iff.mp hw with ⟨y, -, rfl⟩ | ⟨y, rfl, rfl⟩
      · exact ⟨y, w, rfl, word_star hs y, hrest⟩
      · exact ⟨[], v, rfl, word_star hs [], ih he (fun b hb => hx b (List.mem_append_right _ hb)) hrest⟩
    | false =>
      cases x with
      | nil => exact ⟨u, w, hw, hu, hrest⟩
      | cons b x =>
        obtain ⟨c, rfl⟩ := exists_char_of_word hp hs hu
        obtain ⟨b', bs, hb, hf, -⟩ := encodeChar_eq_cons c
        rw [hb] at hw
        obtain ⟨rfl, -⟩ := List.cons.inj hw
        exact absurd hf (hx b List.mem_cons_self)

/-- A part takes whole characters of a path, or may as well do so. -/
theorem cut_of_word (h : (∀ c ∈ cs, c.toNat < 0x80) ∨ ∀ q ∈ p :: ps, q.Exact)
    (hc : cs.flatMap String.utf8EncodeChar = u ++ v) (hu : p.piece.Word u)
    (hv : Piece.Spells (ps.map piece) v) :
    ∃ front back, cs = front ++ back ∧ p.piece.Word (front.flatMap String.utf8EncodeChar) ∧
      Piece.Spells (ps.map piece) (back.flatMap String.utf8EncodeChar) := by
  obtain ⟨front, back, x, rfl, hf, rfl, hx⟩ := exists_cut hc
  refine ⟨front, back, rfl, ?_⟩
  have aligned (hnil : x = []) : p.piece.Word (front.flatMap String.utf8EncodeChar) ∧
      Piece.Spells (ps.map piece) (back.flatMap String.utf8EncodeChar) := by
    subst hnil
    rw [hf, List.append_nil]
    exact ⟨hu, hv⟩
  rcases h with h | h
  · refine aligned (List.eq_nil_iff_forall_not_mem.mpr fun b hb => hx b hb ?_)
    exact first_of_mem_ascii (fun c hc => h c (List.mem_append_left _ hc)) (by simp [hf, hb])
  · obtain ⟨hp, h⟩ := List.forall_mem_cons.mp h
    cases hs : p.isStar with
    | true => exact ⟨word_star hs _, spells_of_no_first h hx hv⟩
    | false =>
      obtain ⟨c, rfl⟩ := exists_char_of_word hp hs hu
      cases front with
      | nil => exact absurd (List.append_eq_nil_iff.mp hf.symm).1 String.utf8EncodeChar_ne_nil
      | cons d front =>
        rw [List.flatMap_cons] at hf
        obtain ⟨-, rfl⟩ := encodeChar_append_inj hf
        have hnil := eq_nil_of_no_first hx
        exact aligned (by rw [hnil, List.flatMap_nil])

theorem spells_encode (h : (∀ c ∈ cs, c.toNat < 0x80) ∨ ∀ p ∈ ps, p.Exact) :
    Piece.Spells (ps.map piece) (cs.flatMap String.utf8EncodeChar) ↔ AllMatch ps cs := by
  induction ps generalizing cs with
  | nil =>
    have hnil : cs.flatMap String.utf8EncodeChar = [].flatMap String.utf8EncodeChar ↔ cs = [] :=
      encode_inj
    exact hnil
  | cons p ps ih =>
    have hword {front back : List Char} (he : cs = front ++ back) :
        p.piece.Word (front.flatMap String.utf8EncodeChar) ↔ p.Matches front :=
      word_encode (h.imp (fun h c hc => h c (he ▸ List.mem_append_left _ hc))
        fun h => h p List.mem_cons_self)
    have hrest {front back : List Char} (he : cs = front ++ back) :
        Piece.Spells (ps.map piece) (back.flatMap String.utf8EncodeChar) ↔ AllMatch ps back :=
      ih (h.imp (fun h c hc => h c (he ▸ List.mem_append_right _ hc))
        fun h q hq => h q (List.mem_cons_of_mem p hq))
    constructor
    · rintro ⟨u, v, hc, hu, hv⟩
      obtain ⟨front, back, he, hp, hps⟩ := cut_of_word h hc hu hv
      exact ⟨front, back, he, (hword he).mp hp, (hrest he).mp hps⟩
    · rintro ⟨front, back, he, hp, hps⟩
      exact ⟨_, _, by rw [he, List.flatMap_append], (hword he).mpr hp, (hrest he).mpr hps⟩

def width : Part → Nat
  | mark (.letter c _ _) => c.utf8Size
  | _ => 1

def totalWidth : List Part → Nat
  | [] => 0
  | p :: ps => p.width + totalWidth ps

theorem length_of_word (hs : p.isStar = false) (hu : p.piece.Word u) : u.length = p.width := by
  match p, hs with
  | separator, _ =>
    rw [(Piece.word_literal '/' u).mp hu]
    rfl
  | mark (.letter c _ _), _ => rw [(Piece.word_literal c u).mp hu, String.length_utf8EncodeChar, width]
  | mark .one, _ =>
    obtain ⟨b, rfl⟩ := (Mark.word_iff (m := .one) trivial u).mp hu
    rfl
  | mark (.oneOf k), _ =>
    obtain ⟨b, rfl, -⟩ := (Piece.word_charSet_iff u).mp hu
    rfl

theorem length_of_spells (hs : ∀ p ∈ ps, p.isStar = false) (h : Piece.Spells (ps.map piece) u) :
    u.length = totalWidth ps := by
  induction ps generalizing u with
  | nil =>
    rw [show u = [] from h]
    rfl
  | cons p ps ih =>
    obtain ⟨hp, hs⟩ := List.forall_mem_cons.mp hs
    obtain ⟨v, w, rfl, hv, hw⟩ := h
    rw [List.length_append, length_of_word hp hv, ih hs hw, totalWidth]

theorem width_le (hs : p.isStar = false) (h : p.Matches cs) :
    ∃ c, cs = [c] ∧ p.width ≤ c.utf8Size ∧
      (p.width = c.utf8Size ↔ (p.Varies → c.toNat < 0x80)) := by
  have one (c : Char) : 1 = c.utf8Size ↔ c.toNat < 0x80 := by
    rw [eq_comm, Char.utf8Size_eq_one_iff]
    exact Nat.lt_succ_iff.symm
  match p, hs, h with
  | separator, _, rfl => exact ⟨'/', rfl, Nat.le_refl _, by simp [Varies, width]; rfl⟩
  | mark (.letter c _ _), _, rfl => exact ⟨c, rfl, Nat.le_refl _, by simp [Varies, width]⟩
  | mark .one, _, ⟨c, rfl⟩ => exact ⟨c, rfl, c.utf8Size_pos, by simp [Varies, width, one]⟩
  | mark (.oneOf k), _, ⟨c, rfl, _⟩ => exact ⟨c, rfl, c.utf8Size_pos, by simp [Varies, width, one]⟩

theorem totalWidth_le (hs : ∀ p ∈ ps, p.isStar = false) (h : AllMatch ps cs) :
    totalWidth ps ≤ (cs.flatMap String.utf8EncodeChar).length := by
  induction ps generalizing cs with
  | nil => exact Nat.zero_le _
  | cons p ps ih =>
    obtain ⟨hp, hs⟩ := List.forall_mem_cons.mp hs
    obtain ⟨front, back, rfl, hfront, hback⟩ := h
    obtain ⟨c, rfl, hle, -⟩ := width_le hp hfront
    rw [totalWidth, List.singleton_append, List.flatMap_cons, List.length_append,
      String.length_utf8EncodeChar]
    exact Nat.add_le_add hle (ih hs hback)

theorem exact_or_varies (p : Part) : p.Exact ∨ p.Varies := by
  match p with
  | separator => exact .inl trivial
  | mark (.letter _ _ _) => exact .inl trivial
  | mark .star => exact .inl trivial
  | mark .one => exact .inr trivial
  | mark (.oneOf _) => exact .inr trivial

theorem spells_iff_of_matches (hs : ∀ p ∈ ps, p.isStar = false) (h : AllMatch ps cs) :
    Piece.Spells (ps.map piece) (cs.flatMap String.utf8EncodeChar) ↔
      ∀ x ∈ ps.zip cs, x.1.Varies → x.2.toNat < 0x80 := by
  induction ps generalizing cs with
  | nil =>
    rw [show cs = [] from h]
    simp [Piece.Spells]
  | cons p ps ih =>
    obtain ⟨hp, hs⟩ := List.forall_mem_cons.mp hs
    obtain ⟨front, back, rfl, hfront, hback⟩ := h
    obtain ⟨c, rfl, hle, heq⟩ := width_le hp hfront
    rw [List.singleton_append, List.zip_cons_cons, List.forall_mem_cons, List.flatMap_cons, ← heq,
      ← ih hs hback]
    constructor
    · rintro ⟨u, v, hc, hu, hv⟩
      -- no part behind this one can make up for bytes that it leaves
      have hlength := congrArg List.length hc
      rw [List.length_append, List.length_append, String.length_utf8EncodeChar,
        length_of_word hp hu, length_of_spells hs hv] at hlength
      have hrest := totalWidth_le hs hback
      have hwidth : p.width = c.utf8Size := by omega
      have hl : (String.utf8EncodeChar c).length = u.length := by
        rw [String.length_utf8EncodeChar, length_of_word hp hu, hwidth]
      obtain ⟨-, rfl⟩ := List.append_inj hc hl
      exact ⟨hwidth, hv⟩
    · rintro ⟨hwidth, hv⟩
      refine ⟨_, _, rfl, ?_, hv⟩
      have hascii : (∀ d ∈ [c], d.toNat < 0x80) ∨ p.Exact := by
        rcases exact_or_varies p with he | hvar
        · exact .inr he
        · exact .inl (by simpa using heq.mp hwidth hvar)
      have hword := (word_encode hascii).mpr hfront
      rwa [List.flatMap_singleton] at hword

theorem leading_notMem (ps : List Part) : .leading ∉ ps.map piece := by
  intro h
  obtain ⟨p, -, hp⟩ := List.mem_map.mp h
  cases p with
  | separator => cases hp
  | mark m => cases m <;> cases hp

end Part

theorem exists_parts {text : String} {g : Glob} (h : compile text = .ok g)
    (hb : ∀ c ∈ text.toList, c ≠ '\x7b' ∧ c ≠ '\x7d') :
    ∃ ps : List Part, ps.flatMap Part.chars = text.toList := by
  obtain ⟨front, last, ht⟩ := marked_of_compile h hb
  refine ⟨front.flatMap (fun c => c.map .mark ++ [.separator]) ++ last.map .mark, ?_⟩
  rw [ht]
  simp [List.flatMap_assoc, List.flatMap_map, Part.chars]

/-- Single stars, other marks and separators, and how far a glob of them goes by characters: on paths
of single bytes, and where it has no question mark, no class with a sign and no class with a member of
several bytes. Of the paths that match a glob without stars by characters, it accepts those that have a
character of one byte in the place of every question mark and class. -/
theorem accepts_by_characters {ps : List Part} (h : Part.Spaced ps) :
    ∃ g, compile (String.ofList (ps.flatMap Part.chars)) = .ok g ∧
      (∀ path : String, (∀ c ∈ path.toList, c.toNat < 0x80) ∨ (∀ p ∈ ps, p.Exact) →
        (g.accepts path = true ↔ Part.AllMatch ps path.toList)) ∧
      ∀ path : String, (∀ p ∈ ps, p.isStar = false) → Part.AllMatch ps path.toList →
        (g.accepts path = true ↔ ∀ x ∈ ps.zip path.toList, x.1.Varies → x.2.toNat < 0x80) := by
  let g : Glob := ⟨ps.map Part.piece⟩
  have hread : GlobReader.read GlobReader.start (ps.flatMap Part.chars) = .ok g.pieces :=
    GlobReader.read_parts h []
  have hne : g.pieces ≠ [.leading] := by
    intro he
    have hm : Piece.leading ∈ g.pieces := by rw [he]; exact List.mem_singleton_self _
    exact Part.leading_notMem ps hm
  have haccepts (path : String) :
      g.accepts path = true ↔ Piece.Spells (ps.map Part.piece) (utf8 path) := by
    simp [accepts_iff, hne, g]
  refine ⟨g, ?_, fun path hp => ?_, fun path hs hm => ?_⟩
  · rw [GlobReader.compile_eq_ok_iff_read, String.toList_ofList, hread]
  · rw [haccepts]
    exact Part.spells_encode hp
  · rw [haccepts]
    exact Part.spells_iff_of_matches hs hm

theorem CharClass.signs_none : ∀ c ∈ (none : Option Char), c = '!' ∨ c = '^' := by simp

def aToC : CharClass where
  sign := none
  members := ['a', '-', 'c']
  ranges := [('a', 'c')]
  dash := false
  signs := CharClass.signs_none
  unsigned := by simp
  lists := .range (.first 'a') (by decide) (by decide)

def accented : List Part :=
  [.mark (.oneOf aToC), .mark .star, .mark (.letter 'é' (by decide) (by decide))]

def shortDocument : List Part :=
  [.mark .one, .mark (.letter '.' (by decide) (by decide)),
    .mark (.letter 'm' (by decide) (by decide)), .mark (.letter 'd' (by decide) (by decide))]

theorem shortDocument_matches (c : Char) : Part.AllMatch shortDocument [c, '.', 'm', 'd'] :=
  ⟨[c], ['.', 'm', 'd'], rfl, ⟨c, rfl⟩, ['.'], ['m', 'd'], rfl, rfl, ['m'], ['d'], rfl, rfl,
    ['d'], [], rfl, rfl, rfl⟩

theorem shortDocument_spaced : Part.Spaced shortDocument := by
  simp [Part.Spaced, shortDocument, Part.isStar]

theorem accepts_by_characters_accented :
    Part.Spaced accented ∧ Part.Spaced shortDocument ∧
    (∃ g, compile "[a-c]*é" = .ok g ∧ g.accepts "bœé" = true ∧
      ∀ path, g.accepts path = true ↔ Part.AllMatch accented path.toList) ∧
    ∃ g, compile "?.md" = .ok g ∧ g.accepts "e.md" = true := by
  have ha : Part.Spaced accented := by simp [Part.Spaced, accented, Part.isStar]
  have hexact : ∀ p ∈ accented, p.Exact := by
    simp [accented, Part.Exact, CharClass.Ascii, aToC]
  refine ⟨ha, shortDocument_spaced, ?_, ?_⟩
  · obtain ⟨g, hc, hg, -⟩ := accepts_by_characters ha
    have hall (path : String) := hg path (.inr hexact)
    have hb : aToC.Holds 'b' ↔ aToC.sign = none := by simp [CharClass.Holds, aToC]
    have hm : Part.AllMatch accented ['b', 'œ', 'é'] :=
      ⟨['b'], ['œ', 'é'], rfl, ⟨'b', rfl, hb⟩, ['œ'], ['é'], rfl, trivial, ['é'], [], rfl, rfl, rfl⟩
    exact ⟨g, hc, (hall "bœé").mpr hm, hall⟩
  · obtain ⟨g, hc, -, hg⟩ := accepts_by_characters shortDocument_spaced
    refine ⟨g, hc, (hg "e.md" (by simp [shortDocument, Part.isStar]) ?_).mpr ?_⟩
    · exact shortDocument_matches 'e'
    · simp [shortDocument, Part.Varies]

theorem question_mark_misses_letter :
    String.ofList (shortDocument.flatMap Part.chars) = "?.md" ∧ Part.Spaced shortDocument ∧
      Part.AllMatch shortDocument "é.md".toList ∧
      ∃ g, compile "?.md" = .ok g ∧ g.accepts "é.md" = false :=
  ⟨rfl, shortDocument_spaced, shortDocument_matches 'é',
    ⟨.one :: ".md".toList.map .literal⟩, by decide +kernel, by decide +kernel⟩

end Glob

end EditHook
