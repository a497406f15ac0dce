import EditHook.Proofs.JsonNumbers
import EditHook.Proofs.JsonTexts

/-! The reader of JSON on every text of the grammar: it gets what the text says, unless too many
brackets are open or some part of it cannot be held. -/

namespace EditHook

namespace Json

variable {bs cs lead rest : List Char} {c : Char} {first : Bool} {levels fuel : Nat} {m : Meaning}
  {ms : List Meaning} {fields : List (Option String × Meaning)}

theorem skipBlank_append (hb : Blanks bs) (cs : List Char) : skipBlank (bs ++ cs) = skipBlank cs :=
  List.dropWhile_append_of_pos hb

theorem skipBlank_cons (h : isBlank c = false) (cs : List Char) : skipBlank (c :: cs) = c :: cs :=
  List.dropWhile_cons_of_neg (by simp [h])

theorem Blanks.follows (hb : Blanks bs) (hr : Follows rest) : Follows (bs ++ rest) := by
  cases bs with
  | nil => exact hr
  | cons b bs =>
    intro c hc
    cases hc
    exact .inl (hb b List.mem_cons_self)

theorem Lead.follows (h : Lead false lead) (rest : List Char) : Follows (lead ++ rest) := by
  cases h with
  | further hb _ =>
    rw [List.append_assoc]
    apply hb.follows
    simp [Follows]

theorem SpellsItems.follows (h : SpellsItems false ms cs) (rest : List Char) :
    Follows (cs ++ rest) := by
  cases h with
  | nil hb =>
    rw [List.append_assoc]
    apply hb.follows
    simp [Follows]
  | cons hl _ _ =>
    rw [List.append_assoc]
    exact hl.follows _

theorem SpellsMembers.follows (h : SpellsMembers false fields cs) (rest : List Char) :
    Follows (cs ++ rest) := by
  cases h with
  | nil hb =>
    rw [List.append_assoc]
    apply hb.follows
    simp [Follows]
  | cons hl _ _ _ _ _ =>
    rw [List.append_assoc]
    exact hl.follows _

theorem Numeral.chars_head (n : Numeral) :
    ∃ c cs, n.chars = c :: cs ∧ (c = '-' ∨ isDigit c = true) := by
  rw [Numeral.chars]
  split
  · exact ⟨'-', _, rfl, .inl rfl⟩
  · obtain ⟨c, cs, hc, hd⟩ := unsigned_head n
    exact ⟨c, cs, hc, .inr hd⟩

theorem Spells.head (h : Spells m cs) : ∃ c ds, cs = c :: ds ∧ isBlank c = false ∧ c ≠ ']' := by
  cases h with
  | null => exact ⟨_, _, rfl, rfl, by decide⟩
  | trueWord => exact ⟨_, _, rfl, rfl, by decide⟩
  | falseWord => exact ⟨_, _, rfl, rfl, by decide⟩
  | number n =>
    obtain ⟨c, ds, hc, rfl | hd⟩ := n.chars_head
    · exact ⟨_, _, hc, rfl, by decide⟩
    · exact ⟨_, _, hc, digit_not_blank hd, digit_ne hd rfl⟩
  | text _ => exact ⟨_, _, rfl, rfl, by decide⟩
  | list _ => exact ⟨_, _, rfl, rfl, by decide⟩
  | object _ => exact ⟨_, _, rfl, rfl, by decide⟩

theorem SpellsItems.length_lt (h : SpellsItems first ms cs) : ms.length < cs.length := by
  induction ms generalizing first cs with
  | nil =>
    cases h
    simp
  | cons m ms ih =>
    cases h with
    | cons _ hm hms =>
      obtain ⟨c, ds, rfl, _⟩ := hm.head
      have hlt := ih hms
      simp only [List.length_cons, List.length_append]
      omega

theorem SpellsMembers.length_lt (h : SpellsMembers first fields cs) : fields.length < cs.length := by
  induction fields generalizing first cs with
  | nil =>
    cases h
    simp
  | cons m ms ih =>
    cases h with
    | cons _ _ _ _ _ hms =>
      have hlt := ih hms
      simp only [List.length_cons, List.length_append]
      omega

theorem nextItem_end (first : Bool) (hb : Blanks bs) (rest : List Char) :
    nextItem first (bs ++ ']' :: rest) = .ok (false, rest) := by
  simp [nextItem, skipBlank_append hb, skipBlank_cons (c := ']') rfl]

theorem nextItem_lead (h : Lead first lead) (hb : isBlank c = false) (hc : c ≠ ']')
    (rest : List Char) : nextItem first (lead ++ c :: rest) = .ok (true, c :: rest) := by
  cases h with
  | first hl => simp [nextItem, skipBlank_append hl, skipBlank_cons hb, hc]
  | further hl hl' =>
    simp [nextItem, skipBlank_append hl, skipBlank_append hl', skipBlank_cons (c := ',') rfl,
      skipBlank_cons hb, hc]

theorem SpellsItems.nextItem_nil (h : SpellsItems first [] cs) (rest : List Char) :
    nextItem first (cs ++ rest) = .ok (false, rest) := by
  cases h with
  | nil hb =>
    rw [List.append_assoc, List.singleton_append]
    exact nextItem_end first hb rest

theorem SpellsItems.nextItem_cons (h : SpellsItems first (m :: ms) cs) :
    ∃ item more, Spells m item ∧ SpellsItems false ms more ∧
      ∀ rest, nextItem first (cs ++ rest) = .ok (true, item ++ (more ++ rest)) := by
  cases h with
  | @cons _ _ _ lead item more hl hm hms =>
    obtain ⟨c, ds, rfl, hb, hc⟩ := hm.head
    refine ⟨c :: ds, more, hm, hms, fun rest => ?_⟩
    simpa using nextItem_lead hl hb hc (ds ++ (more ++ rest))

theorem nextKey_end (first : Bool) (hb : Blanks bs) (rest : List Char) :
    nextKey first (bs ++ '\x7d' :: rest) = .ok (false, rest) := by
  simp [nextKey, skipBlank_append hb, skipBlank_cons (c := '\x7d') rfl]

theorem nextKey_lead (h : Lead first lead) (rest : List Char) :
    nextKey first (lead ++ '"' :: rest) = .ok (true, rest) := by
  cases h with
  | first hl => simp [nextKey, skipBlank_append hl, skipBlank_cons (c := '"') rfl]
  | further hl hl' =>
    simp [nextKey, skipBlank_append hl, skipBlank_append hl', skipBlank_cons (c := ',') rfl,
      skipBlank_cons (c := '"') rfl]

theorem colon_append (hb : Blanks bs) (rest : List Char) : colon (bs ++ ':' :: rest) = .ok rest := by
  simp [colon, skipBlank_append hb, skipBlank_cons (c := ':') rfl]

theorem value_blanks (hb : Blanks bs) (cs : List Char) : value levels (bs ++ cs) = value levels cs := by
  cases levels <;> simp only [value, skipBlank_append hb]

theorem value_scalar {r : Except Fault (Parsed Scalar)} (hb : isBlank c = false)
    (h : scalarAt? c cs = some r) :
    value levels (c :: cs) = r.map fun r => (.scalar r.1, r.2) := by
  cases levels <;> simp [value, skipBlank_cons hb, h]

theorem value_number (n : Numeral) (hr : Follows rest) :
    (value levels (n.chars ++ rest)).toOption =
      (n.scalar?.map Json.scalar).map fun j => (j, rest) := by
  have hn := number_append n hr
  have hfinish {c : Char} {cs : List Char} (hb : isBlank c = false)
      (h : scalarAt? c cs = some (number n.negative (n.unsigned ++ rest))) :
      (value levels (c :: cs)).toOption = (n.scalar?.map Json.scalar).map fun j => (j, rest) := by
    rw [value_scalar hb h, toOption_map, hn]
    cases n.scalar? <;> rfl
  rw [Numeral.chars]
  split
  · rename_i hneg
    exact hfinish rfl (by simp [scalarAt?, hneg])
  · rename_i hneg
    obtain ⟨c, cs, hc, hd⟩ := unsigned_head n
    have hne {d : Char} (h : isDigit d = false) : c ≠ d := digit_ne hd h
    rw [hc, List.cons_append] at hfinish ⊢
    apply hfinish (digit_not_blank hd)
    simp [scalarAt?, hne (d := 'n') rfl, hne (d := 't') rfl, hne (d := 'f') rfl,
      hne (d := '"') rfl, hne (d := '-') rfl, hd, eq_false_of_ne_true hneg]

theorem value_list (levels : Nat) (cs : List Char) :
    value (levels + 1) ('[' :: cs) =
      (items (value levels) (cs.length + 1) true cs).map fun r => (.list r.1, r.2) := by
  simp [value, skipBlank, isBlank, scalarAt?, isDigit]

theorem value_object (levels : Nat) (cs : List Char) :
    value (levels + 1) ('\x7b' :: cs) =
      (members (value levels) (cs.length + 1) true cs).map fun r => (.object r.1, r.2) := by
  simp [value, skipBlank, isBlank, scalarAt?, isDigit]

theorem value_bracket (hc : c = '[' ∨ c = '\x7b') (cs : List Char) :
    (value 0 (c :: cs)).toOption = none := by
  rcases hc with rfl | rfl <;>
    simp [value, skipBlank, isBlank, scalarAt?, isDigit, faultPast, Except.toOption]

mutual

/-- A value is read for what it says, if it can be held. -/
theorem value_spelled (m : Meaning) {cs rest : List Char} (h : Spells m cs) (levels : Nat)
    (hr : Follows rest) :
    (value levels (cs ++ rest)).toOption = (m.read? levels).map fun j => (j, rest) := by
  match m with
  | .null =>
    cases h
    rw [List.cons_append, value_scalar rfl rfl]
    rfl
  | .boolean b =>
    cases h <;> (rw [List.cons_append, value_scalar rfl rfl]; rfl)
  | .number s? =>
    cases h with
    | number n =>
      rw [value_number n hr, Meaning.read?]
  | .text s? =>
    cases h with
    | @text gs cs ht =>
      have hs : scalarAt? '"' (cs ++ rest) =
          some ((text (cs ++ rest)).map fun r => (.text r.1, r.2)) := rfl
      rw [List.cons_append, value_scalar rfl hs, toOption_map, toOption_map, text_spelled ht,
        Meaning.read?]
      cases textOf? gs <;> rfl
  | .list ms =>
    cases h with
    | @list _ cs hms =>
      cases levels with
      | zero => exact (value_bracket (.inl rfl) _).trans (by rw [Meaning.read?]; rfl)
      | succ levels =>
        have hf : ms.length < (cs ++ rest).length + 1 := by
          have hl := hms.length_lt
          rw [List.length_append]
          omega
        rw [List.cons_append, value_list, toOption_map, items_spelled ms hms levels hf rest,
          Meaning.read?]
        cases Meaning.readItems? levels ms <;> rfl
  | .object ms =>
    cases h with
    | @object _ cs hms =>
      cases levels with
      | zero => exact (value_bracket (.inr rfl) _).trans (by rw [Meaning.read?]; rfl)
      | succ levels =>
        have hf : ms.length < (cs ++ rest).length + 1 := by
          have hl := hms.length_lt
          rw [List.length_append]
          omega
        rw [List.cons_append, value_object, toOption_map, members_spelled ms hms levels hf rest,
          Meaning.read?]
        cases Meaning.readMembers? levels ms <;> rfl

theorem items_spelled (ms : List Meaning) {cs : List Char} {first : Bool} {fuel : Nat}
    (h : SpellsItems first ms cs) (levels : Nat) (hf : ms.length < fuel) (rest : List Char) :
    (items (value levels) fuel first (cs ++ rest)).toOption =
      (Meaning.readItems? levels ms).map fun js => (js, rest) := by
  obtain ⟨fuel, rfl⟩ := Nat.exists_eq_add_one.mpr (Nat.zero_lt_of_lt hf)
  match ms with
  | [] =>
    rw [items, h.nextItem_nil, Meaning.readItems?]
    rfl
  | m :: ms =>
    obtain ⟨item, more, hm, hms, hnext⟩ := h.nextItem_cons
    -- what stands behind an item ends it, whatever follows the list
    have hvalue := value_spelled m hm levels (hms.follows rest)
    have hitems := items_spelled ms hms levels (Nat.lt_of_succ_lt_succ hf) rest
    simp only [items, hnext, toOption_bind, toOption_ok, Option.bind_some, if_true, hvalue,
      Meaning.readItems?]
    cases m.read? levels with
    | none => rfl
    | some j =>
      simp only [Option.map_some, Option.bind_some, hitems]
      cases Meaning.readItems? levels ms <;> rfl

theorem members_spelled (ms : List (Option String × Meaning)) {cs : List Char} {first : Bool}
    {fuel : Nat} (h : SpellsMembers first ms cs) (levels : Nat) (hf : ms.length < fuel)
    (rest : List Char) :
    (members (value levels) fuel first (cs ++ rest)).toOption =
      (Meaning.readMembers? levels ms).map fun js => (js, rest) := by
  obtain ⟨fuel, rfl⟩ := Nat.exists_eq_add_one.mpr (Nat.zero_lt_of_lt hf)
  match ms with
  | [] =>
    cases h with
    | nil hb =>
      rw [List.append_assoc, List.singleton_append, members, nextKey_end first hb]
      rw [Meaning.readMembers?]
      rfl
  | (key?, m) :: ms =>
    cases h with
    | @cons _ gs _ _ lead key before behind cs more hl hk hb hb' hm hms =>
      have hvalue := value_spelled m hm levels (hms.follows rest)
      have hmembers := members_spelled ms hms levels (Nat.lt_of_succ_lt_succ hf) rest
      have htext := text_spelled hk (before ++ ':' :: (behind ++ (cs ++ (more ++ rest))))
      simp only [List.append_assoc, List.cons_append]
      have hcolon := colon_append hb (behind ++ (cs ++ (more ++ rest)))
      have hvalue := (congrArg Except.toOption (value_blanks hb' _)).trans hvalue
      simp only [members, nextKey_lead hl, toOption_bind, toOption_ok, Option.bind_some, if_true, htext,
        Meaning.readMembers?]
      cases textOf? gs with
      | none => rfl
      | some key =>
        simp only [Option.map_some, Option.bind_some, hcolon, toOption_ok, hvalue]
        cases m.read? levels with
        | none => rfl
        | some j =>
          simp only [Option.map_some, Option.bind_some, hmembers]
          cases Meaning.readMembers? levels ms <;> rfl

end

end Json

end EditHook
