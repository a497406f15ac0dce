import EditHook.Proofs.JsonGrammar
import EditHook.Proofs.Results

/-! Texts in quotes, with any of their characters escaped. A text that is read has no surrogate that
stands alone, while a text that is skipped may have one. -/

namespace EditHook

namespace Json

variable {cs more rest : List Char} {digits : List Nat} {gs : List Glyph} {n m fuel : Nat}

theorem length_le_byteLength (cs : List Char) : cs.length ≤ byteLength cs := by
  induction cs with
  | nil => simp
  | cons c cs ih =>
    have hc := Char.utf8Size_pos c
    simp only [byteLength, List.length_cons]
    omega

theorem fourDigits_append (hl : cs.length = 4) (hd : cs.mapM hexDigit? = some digits)
    (rest : List Char) :
    fourDigits (cs ++ rest) = .ok (digits.foldl (fun n d => n * 16 + d) 0, rest) := by
  have hlong : ¬ byteLength (cs ++ rest) < 4 := by
    have hle := length_le_byteLength (cs ++ rest)
    rw [List.length_append] at hle
    omega
  have htake : (cs ++ rest).take 4 = cs := by rw [← hl, List.take_left]
  have hdrop : (cs ++ rest).drop 4 = rest := by rw [← hl, List.drop_left]
  rw [fourDigits, if_neg hlong, htake, hd, hdrop]

def ReadsUnit (n : Nat) (cs : List Char) : Prop :=
  ∀ rest, fourDigits (cs ++ rest) = .ok (n, rest)

theorem not_trailing_of_leading (h : isLeading n = true) : isTrailing n = false := by
  simp only [isLeading, isTrailing, Bool.and_eq_true, decide_eq_true_eq, Bool.and_eq_false_iff,
    decide_eq_false_iff_not] at h ⊢
  omega

theorem unitEscape_plain (h : ReadsUnit n cs) (ht : isTrailing n = false) (hl : isLeading n = false)
    (rest : List Char) : unitEscape (cs ++ rest) = .ok (Char.ofNat n, rest) := by
  simp [unitEscape, h rest, ht, hl, bind, Except.bind, pure, Except.pure]

theorem unitEscape_trailing (h : ReadsUnit n cs) (ht : isTrailing n = true) (rest : List Char) :
    (unitEscape (cs ++ rest)).toOption = none := by
  simp [unitEscape, h rest, ht, bind, Except.bind, faultAt, Except.toOption]

theorem unitEscape_leading (h : ReadsUnit n cs) (hl : isLeading n = true) (rest : List Char) :
    unitEscape (cs ++ rest) = (do
      let rest ← joint '\\' rest
      let rest ← joint 'u' rest
      let (m, rest) ← fourDigits rest
      if isTrailing m then
        return (Char.ofNat ((n - 0xD800) * 0x400 + (m - 0xDC00) + 0x10000), rest)
      else faultAt .loneSurrogate rest) := by
  simp [unitEscape, h rest, not_trailing_of_leading hl, hl, bind, Except.bind]

theorem unitEscape_pair (h : ReadsUnit n cs) (hl : isLeading n = true) (h' : ReadsUnit m more)
    (rest : List Char) :
    (unitEscape (cs ++ ('\\' :: 'u' :: (more ++ rest)))).toOption =
      if isTrailing m then
        some (Char.ofNat ((n - 0xD800) * 0x400 + (m - 0xDC00) + 0x10000), rest)
      else none := by
  rw [unitEscape_leading h hl]
  by_cases hm : isTrailing m = true
  · simp [h' _, hm, joint, bind, Except.bind, pure, Except.pure, Except.toOption]
  · simp [h' _, hm, joint, bind, Except.bind, faultAt, Except.toOption]

theorem unitEscape_alone (h : ReadsUnit n cs) (hl : isLeading n = true)
    (hne : ∀ more, rest ≠ '\\' :: 'u' :: more) : (unitEscape (cs ++ rest)).toOption = none := by
  rw [unitEscape_leading h hl]
  cases rest with
  | nil => rfl
  | cons c rest =>
    by_cases hc : c = '\\'
    · subst hc
      cases rest with
      | nil => rfl
      | cons d rest =>
        have hd : d ≠ 'u' := by
          rintro rfl
          exact hne rest rfl
        simp [joint, hd, bind, Except.bind, faultPast, Except.toOption]
    · simp [joint, hc, bind, Except.bind, faultPast, Except.toOption]

theorem SpellsText.ne_unit (h : SpellsText gs cs) (hne : ∀ m gs', gs ≠ .unit m :: gs')
    (rest more : List Char) : cs ++ rest ≠ '\\' :: 'u' :: more := by
  cases h with
  | nil => simp
  | @cons g gs cs ds hg _ =>
    cases hg with
    | plain _ hslash _ =>
      intro he
      exact hslash (List.cons.inj he).1
    | @short letter c hletter =>
      intro he
      obtain rfl : letter = 'u' := (List.cons.inj (List.cons.inj he).2).1
      cases hletter
    | unit _ _ => exact absurd rfl (hne _ _)

theorem SpellsText.of_unit (h : SpellsText (.unit n :: gs) cs) :
    ∃ hex more, cs = '\\' :: 'u' :: (hex ++ more) ∧ ReadsUnit n hex ∧ SpellsText gs more := by
  cases h with
  | cons hg hmore =>
    cases hg with
    | @unit hex digits hl hd => exact ⟨hex, _, rfl, fourDigits_append hl hd, hmore⟩

theorem Glyph.Spelled.length_pos {g : Glyph} (h : g.Spelled cs) : 0 < cs.length := by
  cases h <;> simp

theorem decoded?_trailing (h : isTrailing n = true) (gs : List Glyph) :
    decoded? (.unit n :: gs) = none := by
  rw [decoded?.eq_def]
  simp [h]

theorem decoded?_plain (ht : ¬ isTrailing n = true) (hl : ¬ isLeading n = true) (gs : List Glyph) :
    decoded? (.unit n :: gs) = (decoded? gs).map (Char.ofNat n :: ·) := by
  rw [decoded?.eq_def]
  simp [ht, hl]

theorem textWithin_backslash (fuel : Nat) (cs : List Char) :
    (textWithin (fuel + 1) ('\\' :: cs)).toOption = (escape cs).toOption.bind fun r =>
      (textWithin fuel r.2).toOption.map fun ds => (r.1 :: ds.1, ds.2) := by
  have hq : '\\' ≠ '"' := by decide
  simp only [textWithin, hq, if_false, if_true, toOption_bind]
  cases (escape cs).toOption with
  | none => rfl
  | some r =>
    simp only [Option.bind_some]
    cases textWithin fuel r.2 <;> rfl

theorem escape_unit (cs : List Char) : escape ('u' :: cs) = unitEscape cs := by
  simp [escape]

/-- A text is read as what its glyphs stand for, if they stand for anything. -/
theorem textWithin_spelled (h : SpellsText gs cs) (hf : gs.length < fuel) :
    (textWithin fuel (cs ++ rest)).toOption = (decoded? gs).map fun ds => (ds, rest) := by
  -- the reader takes both halves of a pair in one step, so the cases are those of `decoded?`
  induction gs using decoded?.induct generalizing cs fuel
  all_goals obtain ⟨fuel, rfl⟩ := Nat.exists_eq_add_one.mpr (Nat.zero_lt_of_lt hf)
  case case1 =>
    cases h
    rfl
  case case2 c gs ih =>
    cases h with
    | @cons _ _ cs more hg hmore =>
    have ih := ih hmore (Nat.lt_of_succ_lt_succ hf)
    cases hg with
    | plain hq hb hc =>
      have hc : ¬ c.toNat < 0x20 := by omega
      simp only [List.cons_append, List.nil_append, textWithin, hq, hb, hc, if_false,
        toOption_bind, ih, decoded?]
      cases decoded? gs <;> rfl
    | @short letter _ hletter =>
      have hu : letter ≠ 'u' := by
        rintro rfl
        cases hletter
      have he : escape (letter :: (more ++ rest)) = .ok (c, more ++ rest) := by
        simp [escape, hu, hletter]
      simp only [List.cons_append, List.nil_append, textWithin_backslash, he, toOption_ok,
        Option.bind_some, ih, decoded?]
      cases decoded? gs <;> rfl
  case case3 n gs ht =>
    obtain ⟨hex, more, rfl, hunit, _⟩ := h.of_unit
    have he := unitEscape_trailing hunit ht (more ++ rest)
    simp only [List.cons_append, List.append_assoc, textWithin_backslash, escape_unit, he,
      decoded?_trailing ht]
    rfl
  case case4 n ht hl m gs hm ih =>
    obtain ⟨hex, more, rfl, hunit, hmore⟩ := h.of_unit
    obtain ⟨hex', more', rfl, hunit', hmore'⟩ := hmore.of_unit
    have hf : gs.length < fuel := by
      simp only [List.length_cons] at hf
      omega
    have he := unitEscape_pair hunit hl hunit' (more' ++ rest)
    simp only [List.cons_append, List.append_assoc, textWithin_backslash, escape_unit, he, hm,
      if_true, Option.bind_some, ih hmore' hf, decoded?, ht, hl]
    cases decoded? gs <;> rfl
  case case5 n ht hl m gs hm =>
    obtain ⟨hex, more, rfl, hunit, hmore⟩ := h.of_unit
    obtain ⟨hex', more', rfl, hunit', _⟩ := hmore.of_unit
    have he := unitEscape_pair hunit hl hunit' (more' ++ rest)
    simp only [List.cons_append, List.append_assoc, textWithin_backslash, escape_unit, he, hm,
      decoded?, ht, hl, if_true]
    rfl
  case case6 n gs ht hl hne =>
    obtain ⟨hex, more, rfl, hunit, hmore⟩ := h.of_unit
    have halone := hmore.ne_unit (fun m gs' he => hne m gs' he) rest
    have he := unitEscape_alone hunit hl halone
    simp only [List.cons_append, List.append_assoc, textWithin_backslash, escape_unit, he,
      decoded?, ht, hl, if_true]
    simp
  case case7 n gs ht hl ih =>
    obtain ⟨hex, more, rfl, hunit, hmore⟩ := h.of_unit
    have he := unitEscape_plain hunit (eq_false_of_ne_true ht) (eq_false_of_ne_true hl) (more ++ rest)
    simp only [List.cons_append, List.append_assoc, textWithin_backslash, escape_unit, he, toOption_ok,
      Option.bind_some, ih hmore (Nat.lt_of_succ_lt_succ hf), decoded?_plain ht hl]
    cases decoded? gs <;> rfl

theorem skipTextWithin_spelled (h : SpellsText gs cs) (hf : gs.length < fuel) :
    skipTextWithin fuel (cs ++ rest) = .ok rest := by
  induction h generalizing fuel with
  | nil =>
    obtain ⟨fuel, rfl⟩ := Nat.exists_eq_add_one.mpr (Nat.zero_lt_of_lt hf)
    rfl
  | @cons g gs cs more hg hmore ih =>
    obtain ⟨fuel, rfl⟩ := Nat.exists_eq_add_one.mpr (Nat.zero_lt_of_lt hf)
    have ih := ih (by simpa using hf)
    have hslash : '\\' ≠ '"' := by decide
    cases hg with
    | plain hq hb hc =>
      have hc : ¬ _ < 0x20 := Nat.not_lt.mpr hc
      simpa only [List.cons_append, List.nil_append, skipTextWithin, hq, hb, hc, if_false] using ih
    | @short letter c hletter =>
      have hu : letter ≠ 'u' := by
        rintro rfl
        cases hletter
      have he : skipEscape (letter :: (more ++ rest)) = .ok (more ++ rest) := by
        simp [skipEscape, hu, hletter]
      simpa only [List.cons_append, List.nil_append, skipTextWithin, hslash, he, if_false, if_true,
        bind, Except.bind] using ih
    | @unit hex digits hl hd =>
      have he : skipEscape ('u' :: (hex ++ (more ++ rest))) = .ok (more ++ rest) := by
        simp [skipEscape, fourDigits_append hl hd, Except.map]
      simpa only [List.cons_append, List.append_assoc, skipTextWithin, hslash, he, if_false, if_true,
        bind, Except.bind] using ih

theorem SpellsText.length_lt (h : SpellsText gs cs) : gs.length < cs.length := by
  induction h with
  | nil => simp
  | cons hg _ ih =>
    have hpos : 0 < _ := hg.length_pos
    simp only [List.length_cons, List.length_append]
    omega

theorem text_spelled (h : SpellsText gs cs) (rest : List Char) :
    (text (cs ++ rest)).toOption = (textOf? gs).map fun s => (s, rest) := by
  have hf : gs.length < (cs ++ rest).length + 1 := by
    have hl := h.length_lt
    rw [List.length_append]
    omega
  rw [text, toOption_bind, textWithin_spelled h hf, textOf?]
  cases decoded? gs <;> rfl

theorem skipText_spelled (h : SpellsText gs cs) (rest : List Char) :
    skipText (cs ++ rest) = .ok rest := by
  apply skipTextWithin_spelled h
  have hl := h.length_lt
  rw [List.length_append]
  omega

end Json

end EditHook
