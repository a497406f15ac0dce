import EditHook.Proofs.JsonReading

/-! What is written without blanks is a text of the grammar, and says what was written. -/

namespace EditHook

namespace Json

theorem hexDigit?_digitChar {n : Nat} (h : n < 16) : hexDigit? n.digitChar = some n := by
  decide +revert

theorem escaped_spelled (c : Char) : ∃ g : Glyph, g.Spelled (escaped c) ∧
    ∀ gs, decoded? (g :: gs) = (decoded? gs).map (c :: ·) := by
  unfold escaped
  split_ifs with hq hb hf hn hr ht hc
  · refine ⟨.char c, .short ?_, fun gs => rfl⟩
    rcases hq with rfl | rfl <;> rfl
  · exact ⟨.char c, .short (hb ▸ rfl), fun gs => rfl⟩
  · exact ⟨.char c, .short (hf ▸ rfl), fun gs => rfl⟩
  · exact ⟨.char c, .short (hn ▸ rfl), fun gs => rfl⟩
  · exact ⟨.char c, .short (hr ▸ rfl), fun gs => rfl⟩
  · exact ⟨.char c, .short (ht ▸ rfl), fun gs => rfl⟩
  · -- the only characters that are written by their number are far below the surrogates
    have hhi : hexDigit? (Nat.digitChar (c.toNat / 16)) = some (c.toNat / 16) :=
      hexDigit?_digitChar (by omega)
    have hlo : hexDigit? (Nat.digitChar (c.toNat % 16)) = some (c.toNat % 16) :=
      hexDigit?_digitChar (by omega)
    have hzero : hexDigit? '0' = some 0 := rfl
    have hdigits : ['0', '0', Nat.digitChar (c.toNat / 16), Nat.digitChar (c.toNat % 16)].mapM
        hexDigit? = some [0, 0, c.toNat / 16, c.toNat % 16] := by
      simp [hhi, hlo, hzero]
    have hvalue : [0, 0, c.toNat / 16, c.toNat % 16].foldl (fun n d => n * 16 + d) 0 = c.toNat := by
      simp only [List.foldl_cons, List.foldl_nil]
      omega
    have ht : ¬ isTrailing c.toNat = true := by
      simp only [isTrailing, Bool.and_eq_true, decide_eq_true_eq]
      omega
    have hl : ¬ isLeading c.toNat = true := by
      simp only [isLeading, Bool.and_eq_true, decide_eq_true_eq]
      omega
    have hg := Glyph.Spelled.unit rfl hdigits
    rw [hvalue] at hg
    refine ⟨.unit c.toNat, hg, fun gs => ?_⟩
    rw [decoded?_plain ht hl, Char.ofNat_toNat]
  · obtain ⟨hquote, hslash⟩ := not_or.mp hq
    exact ⟨.char c, .plain hquote hslash (Nat.le_of_not_lt hc), fun gs => rfl⟩

theorem quotedChars_spelled (s : String) :
    ∃ gs, SpellsText gs (quotedChars s) ∧ textOf? gs = some s := by
  have hchars (cs : List Char) :
      ∃ gs, SpellsText gs (cs.flatMap escaped ++ ['"']) ∧ decoded? gs = some cs := by
    induction cs with
    | nil => exact ⟨[], .nil, rfl⟩
    | cons c cs ih =>
      obtain ⟨gs, hgs, hd⟩ := ih
      obtain ⟨g, hg, hread⟩ := escaped_spelled c
      refine ⟨g :: gs, ?_, by rw [hread, hd]; rfl⟩
      rw [List.flatMap_cons, List.append_assoc]
      exact .cons hg hgs
  obtain ⟨gs, hgs, hd⟩ := hchars s.toList
  exact ⟨gs, hgs, by rw [textOf?, hd]; simp⟩

namespace Tree

mutual

def meaning : Tree → Meaning
  | null => .null
  | boolean b => .boolean b
  | number n => .number n.scalar?
  | text s => .text (some s)
  | list ts => .list (itemMeanings ts)
  | object ms => .object (memberMeanings ms)

def itemMeanings : List Tree → List Meaning
  | [] => []
  | t :: ts => t.meaning :: itemMeanings ts

def memberMeanings : List (String × Tree) → List (Option String × Meaning)
  | [] => []
  | (key, t) :: ms => (some key, t.meaning) :: memberMeanings ms

end

theorem lead_chars (first : Bool) : Lead first (if first then [] else [',']) := by
  cases first with
  | true => exact .first .nil
  | false => exact .further Blanks.nil .nil

mutual

theorem spells (t : Tree) : Spells t.meaning t.chars := by
  match t with
  | null => exact .null
  | boolean true => exact .trueWord
  | boolean false => exact .falseWord
  | number n => exact .number n
  | text s =>
    obtain ⟨gs, hgs, hs⟩ := quotedChars_spelled s
    rw [meaning, chars, ← hs]
    exact .text hgs
  | list ts =>
    rw [meaning, chars]
    exact .list (spellsItems ts true)
  | object ms =>
    rw [meaning, chars]
    exact .object (spellsMembers ms true)

theorem spellsItems (ts : List Tree) (first : Bool) :
    SpellsItems first (itemMeanings ts) (itemChars first ts ++ [']']) := by
  match ts with
  | [] =>
    rw [itemMeanings, itemChars]
    exact .nil .nil
  | t :: ts =>
    have ht := spells t
    have hts := spellsItems ts false
    rw [itemMeanings, itemChars, List.append_assoc, List.append_assoc]
    exact .cons (lead_chars first) ht hts

theorem spellsMembers (ms : List (String × Tree)) (first : Bool) :
    SpellsMembers first (memberMeanings ms) (memberChars first ms ++ ['\x7d']) := by
  match ms with
  | [] =>
    rw [memberMeanings, memberChars]
    exact .nil .nil
  | (key, t) :: ms =>
    obtain ⟨gs, hgs, hkey⟩ := quotedChars_spelled key
    have ht := spells t
    have hms := spellsMembers ms false
    rw [memberMeanings, memberChars, ← hkey]
    simpa using SpellsMembers.cons (lead_chars first) hgs .nil .nil ht hms

end

theorem isText (t : Tree) : IsText t.meaning (String.ofList t.chars) :=
  ⟨[], t.chars, [], .nil, t.spells, .nil, by simp⟩

mutual

/-- A value whose numbers are integers of 64 bits can be held as it is. -/
theorem read?_meaning (t : Tree) {levels : Nat} {j : Json} (hd : t.depth ≤ levels)
    (hj : t.json? = some j) : t.meaning.read? levels = some j := by
  match t with
  | null =>
    cases hj
    simp [meaning, Meaning.read?]
  | boolean b =>
    cases hj
    simp [meaning, Meaning.read?]
  | number n =>
    obtain ⟨i, hi, rfl⟩ := Option.map_eq_some_iff.mp hj
    simp [meaning, Meaning.read?, Numeral.scalar?_of_integer? hi]
  | text s =>
    cases hj
    simp [meaning, Meaning.read?]
  | list ts =>
    obtain ⟨js, hjs, rfl⟩ := Option.map_eq_some_iff.mp hj
    rw [depth] at hd
    obtain ⟨levels, rfl⟩ : ∃ n, levels = n + 1 := ⟨levels - 1, by omega⟩
    rw [meaning, Meaning.read?, readItems?_meaning ts (Nat.le_of_succ_le_succ hd) hjs]
    rfl
  | object ms =>
    obtain ⟨js, hjs, rfl⟩ := Option.map_eq_some_iff.mp hj
    rw [depth] at hd
    obtain ⟨levels, rfl⟩ : ∃ n, levels = n + 1 := ⟨levels - 1, by omega⟩
    rw [meaning, Meaning.read?, readMembers?_meaning ms (Nat.le_of_succ_le_succ hd) hjs]
    rfl

theorem readItems?_meaning (ts : List Tree) {levels : Nat} {js : List Json}
    (hd : itemDepth ts ≤ levels) (hj : itemJson? ts = some js) :
    Meaning.readItems? levels (itemMeanings ts) = some js := by
  match ts with
  | [] =>
    cases hj
    simp [itemMeanings, Meaning.readItems?]
  | t :: ts =>
    obtain ⟨j, hjt, hj⟩ := Option.bind_eq_some_iff.mp hj
    obtain ⟨js, hjs, rfl⟩ := Option.map_eq_some_iff.mp hj
    obtain ⟨hdt, hds⟩ := Nat.max_le.mp hd
    rw [itemMeanings, Meaning.readItems?, read?_meaning t hdt hjt, readItems?_meaning ts hds hjs]
    rfl

theorem readMembers?_meaning (ms : List (String × Tree)) {levels : Nat}
    {js : List (String × Json)} (hd : memberDepth ms ≤ levels) (hj : memberJson? ms = some js) :
    Meaning.readMembers? levels (memberMeanings ms) = some js := by
  match ms with
  | [] =>
    cases hj
    simp [memberMeanings, Meaning.readMembers?]
  | (key, t) :: ms =>
    obtain ⟨j, hjt, hj⟩ := Option.bind_eq_some_iff.mp hj
    obtain ⟨js, hjs, rfl⟩ := Option.map_eq_some_iff.mp hj
    obtain ⟨hdt, hds⟩ := Nat.max_le.mp hd
    rw [memberMeanings, Meaning.readMembers?, read?_meaning t hdt hjt,
      readMembers?_meaning ms hds hjs]
    rfl

end

end Tree

end Json

end EditHook
