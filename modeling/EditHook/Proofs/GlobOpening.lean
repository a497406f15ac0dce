import EditHook.Proofs.Encoding
import EditHook.Proofs.PieceWords
import EditHook.Proofs.Results

/-! A glob that starts with ordinary characters accepts only paths that start with them. The reader
keeps the pieces of these characters at the front for good, but for a separator at their end, which it
may merge with the stars that follow. -/

namespace EditHook

namespace GlobReader

def Plain (c : Char) : Prop :=
  c ∉ ['?', '*', '[', '\x7b', '\x7d']

instance (c : Char) : Decidable (Plain c) :=
  inferInstanceAs (Decidable (_ ∉ _))

/-- The pieces of some ordinary characters, whose last separator may have been merged. -/
inductive Opening : List Char → List Piece → Prop where
  | literals (cs : List Char) : Opening cs (cs.map .literal)
  | between (cs : List Char) : Opening (cs ++ ['/']) (cs.map .literal ++ [.between])
  | trailing (cs : List Char) : Opening (cs ++ ['/']) (cs.map .literal ++ [.trailing])

def Opens (cs : List Char) (ps : List Piece) : Prop :=
  ∃ qs, Opening cs qs ∧ qs.reverse <:+ ps

def outermost : List Piece → List OpenGroup → List Piece
  | current, [] => current
  | _, g :: outer => outermost g.outside outer

variable {cs : List Char} {s s' : State} {ps ps' : List Piece} {gs : List OpenGroup}

theorem Opening.ne_nil {qs : List Piece} (h : Opening cs qs) (hcs : cs ≠ []) : qs ≠ [] := by
  cases h <;> simp_all

theorem Opening.leading_notMem {qs : List Piece} (h : Opening cs qs) : .leading ∉ qs := by
  cases h <;> simp

theorem Opens.cons (h : Opens cs ps) (p : Piece) : Opens cs (p :: ps) := by
  obtain ⟨qs, hq, hs⟩ := h
  exact ⟨qs, hq, hs.trans (List.suffix_cons p ps)⟩

theorem opens_outermost (hh : Opens cs ps → Opens cs ps') (h : Opens cs (outermost ps gs)) :
    Opens cs (outermost ps' gs) := by
  cases gs with
  | nil => exact hh h
  | cons g outer => exact h

theorem opens_push (h : Opens cs (outermost s.current s.groups)) (p : Piece) :
    Opens cs (outermost (s.push p).current (s.push p).groups) :=
  opens_outermost (fun ho => ho.cons p) h

theorem wholeComponent?_cons_eq_some {p : Piece} {n : Next}
    (h : wholeComponent? (p :: ps) n = some ps') :
    p.endsAtSeparator = true ∧ ∃ q, ps' = q :: ps ∧ (p = .leading → q = .leading) ∧
      (p ≠ .leading → q = .between ∨ q = .trailing) := by
  simp only [wholeComponent?, Bool.not_eq_eq_eq_not, Bool.not_true] at h
  split at h
  · cases h
  · rename_i hp
    refine ⟨by simpa using hp, ?_⟩
    cases n with
    | other => cases h
    | separator =>
      cases h
      exact ⟨_, rfl, fun hl => if_pos hl, fun hl => .inl (if_neg hl)⟩
    | choiceEnd =>
      cases h
      exact ⟨_, rfl, fun hl => if_pos hl, fun hl => .inr (if_neg hl)⟩
    | textEnd =>
      cases h
      exact ⟨_, rfl, fun hl => if_pos hl, fun hl => .inr (if_neg hl)⟩

theorem Opening.merge {qs : List Piece} {p q : Piece} (h : Opening cs (qs ++ [p]))
    (hp : p.endsAtSeparator = true) (hq : p ≠ .leading → q = .between ∨ q = .trailing) :
    Opening cs (qs ++ [q]) := by
  have merged (as : List Char) (hl : p ≠ .leading) :
      Opening (as ++ ['/']) (as.map .literal ++ [q]) := by
    rcases hq hl with rfl | rfl
    · exact .between as
    · exact .trailing as
  generalize he : qs ++ [p] = ps at h
  cases h with
  | literals =>
    obtain ⟨as, bs, rfl, rfl, hb⟩ := List.map_eq_append_iff.mp he.symm
    obtain ⟨c, rfl, rfl⟩ := List.map_eq_singleton_iff.mp hb
    obtain rfl : c = '/' := eq_of_beq hp
    exact merged as (by simp)
  | between as =>
    obtain ⟨rfl, hb⟩ := List.append_inj' he rfl
    obtain rfl : p = .between := by simpa using hb
    exact merged as (by simp)
  | trailing as =>
    obtain ⟨rfl, hb⟩ := List.append_inj' he rfl
    -- nothing merges with a separator that took in all that is below it
    obtain rfl : p = .trailing := by simpa using hb
    cases hp

/-- Stars that fill a component take the place of a separator, never of another character. -/
theorem opens_wholeComponent {n : Next} (hcs : cs ≠ []) (hw : wholeComponent? ps n = some ps')
    (h : Opens cs ps) : Opens cs ps' := by
  obtain ⟨qs, hq, hs⟩ := h
  cases ps with
  | nil => exact absurd (List.reverse_eq_nil_iff.mp (List.suffix_nil.mp hs)) (hq.ne_nil hcs)
  | cons p ps =>
    obtain ⟨hp, q, rfl, -, hl⟩ := wholeComponent?_cons_eq_some hw
    -- the piece that is replaced is the last one of the opening or stands behind it
    rcases List.suffix_cons_iff.mp hs with he | hs
    · obtain rfl : qs = ps.reverse ++ [p] := by simpa using congrArg List.reverse he
      exact ⟨ps.reverse ++ [q], hq.merge hp hl, by simp⟩
    · exact Opens.cons ⟨qs, hq, hs⟩ q

theorem plainStep_opens {c : Char} (h : plainStep s c = .ok s')
    (ho : Opens cs (outermost s.current s.groups)) :
    Opens cs (outermost s'.current s'.groups) := by
  unfold plainStep at h
  split at h
  · cases h
    exact opens_push ho _
  · cases h
    exact ho
  · cases h
    exact ho
  · cases h
    exact ho
  · split at h
    · cases h
    · rename_i g outer hg
      cases h
      rw [hg] at ho
      exact opens_outermost (fun ho => ho.cons _) ho
  · split at h
    · cases h
      exact opens_push ho _
    · rename_i g outer hg
      cases h
      rw [hg] at ho
      exact ho
  · cases h
    exact opens_push ho _

theorem doubleStarStep_opens {c : Char} (hcs : cs ≠ []) (h : doubleStarStep s c = .ok s')
    (ho : Opens cs (outermost s.current s.groups)) :
    Opens cs (outermost s'.current s'.groups) := by
  unfold doubleStarStep at h
  split at h
  · exact plainStep_opens h (opens_push (opens_push ho _) _)
  · rename_i pieces hw
    have hm : Opens cs (outermost pieces s.groups) :=
      opens_outermost (opens_wholeComponent hcs hw) ho
    dsimp only at h
    split at h
    · cases h
      exact hm
    · exact plainStep_opens h hm

theorem memberStep_opens {negated dash : Bool} {ranges : List (Char × Char)} {c : Char}
    (h : memberStep s negated ranges dash c = .ok s')
    (ho : Opens cs (outermost s.current s.groups)) :
    Opens cs (outermost s'.current s'.groups) := by
  unfold memberStep at h
  split at h
  · cases h
    exact ho
  · split at h
    · cases h
      exact opens_push ho _
    · split at h
      · obtain ⟨extended, _, h⟩ := bind_eq_ok h
        cases h
        exact ho
      · split at h <;> cases h <;> exact ho

theorem step_opens {c : Char} (hcs : cs ≠ []) (h : step s c = .ok s')
    (ho : Opens cs (outermost s.current s.groups)) :
    Opens cs (outermost s'.current s'.groups) := by
  unfold step at h
  split at h
  · exact plainStep_opens h ho
  · split at h
    · cases h
      exact ho
    · exact plainStep_opens h (opens_push ho _)
  · exact doubleStarStep_opens hcs h ho
  · split at h
    · cases h
      exact ho
    · exact memberStep_opens h ho
  · exact memberStep_opens h ho

theorem run_opens {rest : List Char} (hcs : cs ≠ []) (h : run s rest = .ok s')
    (ho : Opens cs (outermost s.current s.groups)) :
    Opens cs (outermost s'.current s'.groups) := by
  induction rest generalizing s with
  | nil =>
    cases h
    exact ho
  | cons c rest ih =>
    rw [run, List.foldlM_cons] at h
    obtain ⟨next, hn, h⟩ := bind_eq_ok h
    exact ih h (step_opens hcs hn ho)

theorem finish_opens {pieces : List Piece} (hcs : cs ≠ []) (h : finish s = .ok pieces)
    (ho : Opens cs (outermost s.current s.groups)) : Opens cs pieces.reverse := by
  unfold finish at h
  split at h
  · cases h
  · cases h
  · split at h
    · cases h
    · rename_i hg
      have hg : s.groups = [] := by simpa using hg
      have ho : Opens cs s.current := by
        rw [hg] at ho
        exact ho
      split at h
      · cases h
        simpa using ho.cons .star
      · cases h
        cases hw : wholeComponent? s.current .textEnd with
        | none => simpa [twoStars, State.push] using (ho.cons .star).cons .star
        | some ps => simpa using opens_wholeComponent hcs hw ho
      · cases h
        simpa using ho

theorem run_plain {rest : List Char} (hp : ∀ c ∈ cs, Plain c) :
    run ⟨.plain, ps, []⟩ (cs ++ rest) = run ⟨.plain, (cs.map .literal).reverse ++ ps, []⟩ rest := by
  induction cs generalizing ps with
  | nil => rfl
  | cons c cs ih =>
    have hc : step ⟨.plain, ps, []⟩ c = .ok ⟨.plain, .literal c :: ps, []⟩ := by
      have hc := hp c List.mem_cons_self
      simp only [step]
      unfold plainStep
      split <;> simp_all [Plain, State.push]
    have hh : run ⟨.plain, ps, []⟩ (c :: cs ++ rest) =
        run ⟨.plain, .literal c :: ps, []⟩ (cs ++ rest) := by
      rw [List.cons_append, run, List.foldlM_cons, hc]
      rfl
    rw [hh, ih fun d hd => hp d (List.mem_cons_of_mem c hd)]
    simp

theorem Opening.bytes_prefix {qs : List Piece} {w : List UInt8} (h : Opening cs qs)
    (hw : Piece.Spells qs w) : cs.flatMap String.utf8EncodeChar <+: w := by
  have merged (as : List Char) (q : Piece) (hq : ∀ u, q.Word u → ∃ v, u = 0x2F :: v)
      (hw : Piece.Spells (as.map .literal ++ [q]) w) :
      (as ++ ['/']).flatMap String.utf8EncodeChar <+: w := by
    obtain ⟨u, _, rfl, hu, u', _, rfl, hu', rfl⟩ := (Piece.spells_append _ _ _).mp hw
    obtain ⟨v, rfl⟩ := hq u' hu'
    rw [(Piece.spells_literals as u).mp hu, List.flatMap_append]
    exact ⟨v, by simp [show String.utf8EncodeChar '/' = [0x2F] from rfl]⟩
  cases h with
  | literals =>
    exact (Piece.spells_literals cs w).mp hw ▸ List.prefix_rfl
  | between as =>
    refine merged as _ (fun u hu => ?_) hw
    obtain ⟨v, hv, _⟩ := (Piece.word_between_iff_leading u).mp hu
    exact ⟨v, hv⟩
  | trailing as => exact merged as _ (fun u => (Piece.word_trailing_iff u).mp) hw

end GlobReader

theorem Glob.prefix_of_accepts {text path : String} {g : Glob} {cs rest : List Char}
    (h : compile text = .ok g) (ht : text.toList = cs ++ rest) (hp : ∀ c ∈ cs, GlobReader.Plain c)
    (ha : g.accepts path = true) : cs <+: path.toList := by
  by_cases hcs : cs = []
  · rw [hcs]
    exact List.nil_prefix
  obtain ⟨s, hs, h⟩ := bind_eq_ok h
  obtain ⟨pieces, hf, h⟩ := bind_eq_ok h
  cases h
  rw [ht, GlobReader.start, GlobReader.run_plain hp] at hs
  have ho : GlobReader.Opens cs (GlobReader.outermost ((cs.map Piece.literal).reverse ++ []) []) :=
    ⟨_, .literals cs, by simp [GlobReader.outermost]⟩
  obtain ⟨qs, hq, hs⟩ := GlobReader.finish_opens hcs hf (GlobReader.run_opens hcs hs ho)
  obtain ⟨more, rfl⟩ := List.reverse_suffix.mp hs
  rcases (Glob.accepts_iff _ _).mp ha with hl | hw
  · -- a glob of nothing but `**` has no ordinary character at its start
    obtain ⟨q, qs, rfl⟩ := List.exists_cons_of_ne_nil (hq.ne_nil hcs)
    obtain ⟨rfl, _⟩ := List.cons.inj hl
    exact absurd List.mem_cons_self hq.leading_notMem
  · obtain ⟨u, v, hw, hu, _⟩ := (Piece.spells_append _ _ _).mp hw
    exact prefix_of_encode_prefix ((hq.bytes_prefix hu).trans ⟨v, hw.symm⟩)

end EditHook
