import EditHook.Json.Skim
import EditHook.Proofs.JsonReading

/-! The skipper of JSON passes over any value, however deep it nests, whatever numbers are in it and
whether or not its texts can be held. -/

namespace EditHook

namespace Json

namespace Meaning

mutual

def size : Meaning → Nat
  | list ms => sizeOfItems ms + 1
  | object ms => sizeOfMembers ms + 1
  | _ => 1

def sizeOfItems : List Meaning → Nat
  | [] => 0
  | m :: ms => m.size + sizeOfItems ms

def sizeOfMembers : List (Option String × Meaning) → Nat
  | [] => 0
  | (_, m) :: ms => m.size + sizeOfMembers ms

end

end Meaning

variable {bs cs lead key before behind rest : List Char} {c : Char} {gs : List Glyph} {fuel : Nat}
  {outer : List Bracket}

def skimBehind (fuel : Nat) (outer : List Bracket) (cs : List Char) : Except Fault (List Char) := do
  let (still, rest) ← settle outer true cs
  match still with
  | [] => return rest
  | .square :: _ => skim fuel still rest
  | .curly :: _ => skim fuel still (← skipKey rest)

theorem skipFront_blanks (hb : Blanks bs) (cs : List Char) :
    skipFront (bs ++ cs) = skipFront cs := by
  simp only [skipFront, skipBlank_append hb]

theorem skipFront_number (n : Numeral) (hr : Follows rest) :
    skipFront (n.chars ++ rest) = .ok (none, rest) := by
  have hskip := skipNumber_unsigned n hr
  rw [Numeral.chars]
  split
  · simp [skipFront, skipBlank, isBlank, hskip, Except.map]
  · obtain ⟨c, cs, hc, hd⟩ := unsigned_head n
    rw [hc, List.cons_append] at hskip ⊢
    have hne {d : Char} (h : isDigit d = false) : c ≠ d := digit_ne hd h
    simp [skipFront, skipBlank_cons (digit_not_blank hd), hne (d := 'n') rfl, hne (d := 't') rfl,
      hne (d := 'f') rfl, hne (d := '"') rfl, hne (d := '-') rfl, hd, hskip, Except.map]

theorem skipFront_text (h : SpellsText gs cs) (rest : List Char) :
    skipFront ('"' :: (cs ++ rest)) = .ok (none, rest) := by
  simp [skipFront, skipBlank, isBlank, skipText_spelled h, Except.map]

theorem skipFront_list (cs : List Char) : skipFront ('[' :: cs) = .ok (some .square, cs) := by
  simp [skipFront, skipBlank, isBlank, isDigit]

theorem skipFront_object (cs : List Char) : skipFront ('\x7b' :: cs) = .ok (some .curly, cs) := by
  simp [skipFront, skipBlank, isBlank, isDigit]

theorem settle_close (b : Bracket) (outer : List Bracket) (past : Bool) (hb : Blanks bs)
    (rest : List Char) :
    settle (b :: outer) past (bs ++ b.closer :: rest) = settle outer true rest := by
  have hc : isBlank b.closer = false ∧ b.closer ≠ ',' := by cases b <;> decide
  simp [settle, skipBlank_append hb, skipBlank_cons hc.1, hc.2]

theorem settle_comma (b : Bracket) (outer : List Bracket) (hb : Blanks bs) (rest : List Char) :
    settle (b :: outer) true (bs ++ ',' :: rest) = .ok (b :: outer, rest) := by
  simp [settle, skipBlank_append hb, skipBlank_cons (c := ',') rfl]

theorem settle_first (b : Bracket) (outer : List Bracket) (hb : Blanks bs)
    (hc : isBlank c = false) (hne : c ≠ b.closer) (rest : List Char) :
    settle (b :: outer) false (bs ++ c :: rest) = .ok (b :: outer, c :: rest) := by
  simp [settle, skipBlank_append hb, skipBlank_cons hc, hne]

theorem skim_value (h : skipFront cs = .ok (none, rest)) :
    skim (fuel + 1) outer cs = skimBehind fuel outer rest := by
  rw [skim, h]
  rfl

theorem skim_close {b : Bracket} (h : skipFront cs = .ok (some b, bs ++ b.closer :: rest))
    (hb : Blanks bs) : skim (fuel + 1) outer cs = skimBehind fuel outer rest := by
  have hs := settle_close b outer false hb rest
  rw [skim, h, skimBehind, ← hs]
  rfl

theorem skimBehind_close (b : Bracket) (hb : Blanks bs) (rest : List Char) :
    skimBehind fuel (b :: outer) (bs ++ b.closer :: rest) = skimBehind fuel outer rest := by
  rw [skimBehind, settle_close b outer true hb]
  rfl

theorem skipKey_spelled (hb : Blanks bs) (hk : SpellsText gs key) (hb' : Blanks before)
    (rest : List Char) : skipKey (bs ++ '"' :: (key ++ (before ++ ':' :: rest))) = .ok rest := by
  simp [skipKey, skipBlank_append hb, skipBlank_cons (c := '"') rfl, skipText_spelled hk,
    colon_append hb', bind, Except.bind]

theorem skim_list (fuel : Nat) (outer : List Bracket) (hb : Blanks bs) (hl : Blanks lead)
    (hc : isBlank c = false) (hne : c ≠ ']') (rest : List Char) :
    skim (fuel + 1) outer (bs ++ '[' :: (lead ++ c :: rest)) =
      skim fuel (.square :: outer) (c :: rest) := by
  rw [skim, skipFront_blanks hb, skipFront_list]
  simp only [bind, Except.bind, settle_first .square outer hl hc hne]

theorem skim_object (fuel : Nat) (outer : List Bracket) (hb : Blanks bs) (hl : Blanks lead)
    (hk : SpellsText gs key) (hb' : Blanks before) (rest : List Char) :
    skim (fuel + 1) outer (bs ++ '\x7b' :: (lead ++ '"' :: (key ++ (before ++ ':' :: rest)))) =
      skim fuel (.curly :: outer) rest := by
  have hkey := skipKey_spelled Blanks.nil hk hb' rest
  rw [List.nil_append] at hkey
  rw [skim, skipFront_blanks hb, skipFront_object]
  simp only [bind, Except.bind, settle_first (c := '"') .curly outer hl rfl (by decide), hkey]

theorem skimBehind_item (hb : Blanks bs) (rest : List Char) :
    skimBehind fuel (.square :: outer) (bs ++ ',' :: rest) = skim fuel (.square :: outer) rest := by
  simp only [skimBehind, settle_comma _ outer hb, bind, Except.bind]

theorem skimBehind_member (hb : Blanks bs) (hl : Blanks lead) (hk : SpellsText gs key)
    (hb' : Blanks before) (rest : List Char) :
    skimBehind fuel (.curly :: outer)
        (bs ++ ',' :: (lead ++ '"' :: (key ++ (before ++ ':' :: rest)))) =
      skim fuel (.curly :: outer) rest := by
  simp only [skimBehind, settle_comma _ outer hb, skipKey_spelled hl hk hb', bind, Except.bind]

theorem Lead.blanks (h : Lead true lead) : Blanks lead := by
  cases h
  assumption

mutual

/-- As many steps as there are values in a value take the skipper behind it. -/
theorem skim_spelled (m : Meaning) {bs cs rest : List Char} (hb : Blanks bs) (h : Spells m cs)
    (fuel : Nat) (outer : List Bracket) (hr : Follows rest) :
    skim (m.size + fuel) outer (bs ++ (cs ++ rest)) = skimBehind fuel outer rest := by
  have scalar (h : skipFront (cs ++ rest) = .ok (none, rest)) :
      skim (1 + fuel) outer (bs ++ (cs ++ rest)) = skimBehind fuel outer rest := by
    rw [Nat.add_comm]
    exact skim_value ((skipFront_blanks hb _).trans h)
  match m with
  | .null =>
    cases h
    exact scalar rfl
  | .boolean b => cases h <;> exact scalar rfl
  | .number s? =>
    cases h with
    | number n => exact scalar (skipFront_number n hr)
  | .text s? =>
    cases h with
    | text ht => exact scalar (skipFront_text ht rest)
  | .list [] =>
    cases h with
    | list hms =>
      cases hms with
      | @nil _ inner hi =>
        rw [Meaning.size, Meaning.sizeOfItems, Nat.zero_add, Nat.add_comm]
        apply skim_close (b := .square) _ hi
        rw [skipFront_blanks hb, List.cons_append, skipFront_list, List.append_assoc]
        rfl
  | .list (m :: ms) =>
    cases h with
    | list hms =>
      cases hms with
      | @cons _ _ _ lead cs more hl hm hms =>
        obtain ⟨c, ds, hcs, hc, hne⟩ := hm.head
        have hsize : (Meaning.list (m :: ms)).size + fuel =
            (m.size + (Meaning.sizeOfItems ms + fuel)) + 1 := by
          rw [Meaning.size, Meaning.sizeOfItems]
          omega
        have hopen := skim_list (m.size + (Meaning.sizeOfItems ms + fuel)) outer hb hl.blanks hc hne
          (ds ++ (more ++ rest))
        -- the bracket stays open behind the first item, and the other items close it
        have hfirst := skim_spelled m Blanks.nil hm (Meaning.sizeOfItems ms + fuel)
          (.square :: outer) (hms.follows rest)
        have hothers := skim_items ms hms fuel outer rest
        subst hcs
        simp only [hsize, List.append_assoc, List.cons_append, List.nil_append] at hopen hfirst ⊢
        exact hopen.trans (hfirst.trans hothers)
  | .object [] =>
    cases h with
    | object hms =>
      cases hms with
      | @nil _ inner hi =>
        rw [Meaning.size, Meaning.sizeOfMembers, Nat.zero_add, Nat.add_comm]
        apply skim_close (b := .curly) _ hi
        rw [skipFront_blanks hb, List.cons_append, skipFront_object, List.append_assoc]
        rfl
  | .object ((key?, m) :: ms) =>
    cases h with
    | object hms =>
      cases hms with
      | @cons _ gs _ _ lead key before behind cs more hl hk hb' hb'' hm hms =>
        have hsize : (Meaning.object ((textOf? gs, m) :: ms)).size + fuel =
            (m.size + (Meaning.sizeOfMembers ms + fuel)) + 1 := by
          rw [Meaning.size, Meaning.sizeOfMembers]
          omega
        have hopen := skim_object (m.size + (Meaning.sizeOfMembers ms + fuel)) outer hb hl.blanks hk
          hb' (behind ++ (cs ++ (more ++ rest)))
        have hfirst := skim_spelled m hb'' hm (Meaning.sizeOfMembers ms + fuel) (.curly :: outer)
          (hms.follows rest)
        have hothers := skim_members ms hms fuel outer rest
        simp only [hsize, List.append_assoc, List.cons_append] at hopen ⊢
        exact hopen.trans (hfirst.trans hothers)

theorem skim_items (ms : List Meaning) {cs : List Char} (h : SpellsItems false ms cs) (fuel : Nat)
    (outer : List Bracket) (rest : List Char) :
    skimBehind (Meaning.sizeOfItems ms + fuel) (.square :: outer) (cs ++ rest) =
      skimBehind fuel outer rest := by
  match ms with
  | [] =>
    cases h with
    | nil hb =>
      rw [Meaning.sizeOfItems, Nat.zero_add, List.append_assoc]
      exact skimBehind_close .square hb rest
  | m :: ms =>
    cases h with
    | @cons _ _ _ lead cs more hl hm hms =>
      cases hl with
      | @further bs ds hb hb' =>
        have hfirst := skim_spelled m hb' hm (Meaning.sizeOfItems ms + fuel) (.square :: outer)
          (hms.follows rest)
        have hothers := skim_items ms hms fuel outer rest
        simp only [Meaning.sizeOfItems, Nat.add_assoc, List.append_assoc, List.cons_append,
          skimBehind_item hb]
        exact hfirst.trans hothers

theorem skim_members (ms : List (Option String × Meaning)) {cs : List Char}
    (h : SpellsMembers false ms cs) (fuel : Nat) (outer : List Bracket) (rest : List Char) :
    skimBehind (Meaning.sizeOfMembers ms + fuel) (.curly :: outer) (cs ++ rest) =
      skimBehind fuel outer rest := by
  match ms with
  | [] =>
    cases h with
    | nil hb =>
      rw [Meaning.sizeOfMembers, Nat.zero_add, List.append_assoc]
      exact skimBehind_close .curly hb rest
  | (key?, m) :: ms =>
    cases h with
    | @cons _ gs _ _ lead key before behind cs more hl hk hb hb' hm hms =>
      cases hl with
      | @further bs ds hbs hds =>
        have hfirst := skim_spelled m hb' hm (Meaning.sizeOfMembers ms + fuel) (.curly :: outer)
          (hms.follows rest)
        have hothers := skim_members ms hms fuel outer rest
        simp only [Meaning.sizeOfMembers, Nat.add_assoc, List.append_assoc, List.cons_append,
          skimBehind_member hbs hds hk hb]
        exact hfirst.trans hothers

end

mutual

theorem Spells.size_le (m : Meaning) {cs : List Char} (h : Spells m cs) : m.size ≤ cs.length := by
  match m with
  | .null =>
    cases h
    simp [Meaning.size]
  | .boolean b => cases h <;> simp [Meaning.size]
  | .number s? =>
    obtain ⟨c, ds, rfl, _⟩ := h.head
    simp [Meaning.size]
  | .text s? =>
    obtain ⟨c, ds, rfl, _⟩ := h.head
    simp [Meaning.size]
  | .list ms =>
    cases h with
    | list hms =>
      have hle := SpellsItems.size_le ms hms
      simp only [Meaning.size, List.length_cons]
      omega
  | .object ms =>
    cases h with
    | object hms =>
      have hle := SpellsMembers.size_le ms hms
      simp only [Meaning.size, List.length_cons]
      omega

theorem SpellsItems.size_le (ms : List Meaning) {first : Bool} {cs : List Char}
    (h : SpellsItems first ms cs) : Meaning.sizeOfItems ms ≤ cs.length := by
  match ms with
  | [] => simp [Meaning.sizeOfItems]
  | m :: ms =>
    cases h with
    | cons _ hm hms =>
      have hle := Spells.size_le m hm
      have hles := SpellsItems.size_le ms hms
      simp only [Meaning.sizeOfItems, List.length_append]
      omega

theorem SpellsMembers.size_le (ms : List (Option String × Meaning)) {first : Bool} {cs : List Char}
    (h : SpellsMembers first ms cs) : Meaning.sizeOfMembers ms ≤ cs.length := by
  match ms with
  | [] => simp [Meaning.sizeOfMembers]
  | (key?, m) :: ms =>
    cases h with
    | cons _ _ _ _ hm hms =>
      have hle := Spells.size_le m hm
      have hles := SpellsMembers.size_le ms hms
      simp only [Meaning.sizeOfMembers, List.length_append, List.length_cons]
      omega

end

theorem skipValue_spelled {m : Meaning} (hb : Blanks bs) (h : Spells m cs) (hr : Follows rest) :
    skipValue (bs ++ (cs ++ rest)) = .ok rest := by
  have hle := Spells.size_le m h
  obtain ⟨fuel, hf⟩ : ∃ fuel, (bs ++ (cs ++ rest)).length + 1 = m.size + fuel :=
    ⟨(bs ++ (cs ++ rest)).length + 1 - m.size, by simp only [List.length_append]; omega⟩
  rw [skipValue, hf, skim_spelled m hb h fuel [] hr]
  rfl

end Json

end EditHook
