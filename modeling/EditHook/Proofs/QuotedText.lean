import EditHook.Proofs.Scanning

/-! Texts in quotes, written so that any text can be, and the scan that reads them back. -/

namespace EditHook

namespace Document

/-- How a character is written in quotes: printable ASCII as it is, but quotes and backslashes behind
a backslash, and the others by their codes where these have up to four digits. -/
def escaped (c : Char) : List Char :=
  if c = '"' ∨ c = '\\' then ['\\', c]
  else if (' ' ≤ c ∧ c ≤ '~') ∨ 0x10000 ≤ c.toNat then [c]
  else ['\\', 'u', '\x7b'] ++ Nat.toDigits 16 c.toNat ++ ['\x7d']

def quote (text : String) : List Char :=
  '"' :: text.toList.flatMap escaped ++ ['"']

end Document

namespace Scanner

variable {here before : Nat} {tokens : List PlacedToken} {ws : List Written}

theorem run_singleton (s : State) (c : Char) : run s [c] = step s c := by
  simp [run]

theorem hexValue?_digitChar {n : Nat} (h : n < 16) : Character.hexValue? n.digitChar = some n := by
  decide +revert

theorem digitChar_ne_close {n : Nat} (h : n < 16) : n.digitChar ≠ '\x7d' := by
  decide +revert

theorem step_digit {k v n : Nat} (hk : k < 6) (h : n < 16) :
    step ⟨.code false ws k v, here, before, tokens⟩ n.digitChar =
      some ⟨.code false ws (k + 1) (v * 16 + n), here + n.digitChar.utf8Size, before, tokens⟩ := by
  simp [step, modeStep, codeStep, digitChar_ne_close h, hexValue?_digitChar h, Nat.ne_of_lt hk,
    State.enter]

theorem run_digits {n : Nat} (h : n < 0x1000000) :
    run ⟨.code false ws 0 0, here, before, tokens⟩ (Nat.toDigits 16 n) =
      some ⟨.code false ws (Nat.toDigits 16 n).length n,
        here + byteLength (Nat.toDigits 16 n), before, tokens⟩ := by
  induction n using Nat.strongRecOn with
  | _ n ih =>
    by_cases hn : n < 16
    · rw [Nat.toDigits_of_lt_base hn, run_singleton, step_digit (by decide) hn]
      simp [byteLength]
    · have hl : (Nat.toDigits 16 (n / 16)).length ≤ 5 :=
        (Nat.length_toDigits_le_iff (by decide) (by decide)).mpr (by omega)
      rw [Nat.toDigits_of_base_le (by decide) (by omega), run_append,
        ih (n / 16) (by omega) (by omega), Option.bind_some, run_singleton,
        step_digit (by omega) (Nat.mod_lt n (by decide)), byteLength_append, List.length_append]
      have hv : n / 16 * 16 + n % 16 = n := by omega
      simp [hv, byteLength, Nat.add_assoc]

theorem exists_digit_of_mem_toDigits {n : Nat} {c : Char} (h : c ∈ Nat.toDigits 16 n) :
    ∃ d < 16, c = Nat.digitChar d := by
  induction n using Nat.strongRecOn with
  | _ n ih =>
    by_cases hn : n < 16
    · rw [Nat.toDigits_of_lt_base hn, List.mem_singleton] at h
      exact ⟨n, hn, h⟩
    · rw [Nat.toDigits_of_base_le (by decide) (by omega)] at h
      rcases List.mem_append.mp h with h | h
      · exact ih (n / 16) (by omega) h
      · exact ⟨n % 16, Nat.mod_lt n (by decide), List.mem_singleton.mp h⟩

theorem ofCode?_toNat (c : Char) : Character.ofCode? c.toNat = some c := by
  rw [Character.ofCode?, dif_pos (show c.toNat.isValidChar from c.valid)]
  rfl

theorem step_plain {c : Char} (hq : c ≠ '"') (hb : c ≠ '\\')
    (h : (' ' ≤ c ∧ c ≤ '~') ∨ 0x10000 ≤ c.toNat) :
    step ⟨.quoted false ws, here, before, tokens⟩ c =
      some ⟨.quoted false (.plain c :: ws), here + c.utf8Size, before, tokens⟩ := by
  have hn : (0x20 ≤ c.toNat ∧ c.toNat ≤ 0x7E) ∨ 0x10000 ≤ c.toNat := h
  have hf : Character.isForbidden c = false := by
    simp only [Character.isForbidden, Bool.or_eq_false_iff, Bool.and_eq_false_iff,
      decide_eq_false_iff_not, beq_eq_false_iff_ne]
    omega
  have hl : Character.isNewline c = false := by
    simp only [Character.isNewline, Bool.or_eq_false_iff, Bool.and_eq_false_iff,
      decide_eq_false_iff_not, beq_eq_false_iff_ne]
    omega
  simp [step, modeStep, quotedStep, hq, hb, hf, hl, State.enter]

theorem run_escaped (ws : List Written) (here : Nat) (c : Char) :
    ∃ w, w.char? = some c ∧ run ⟨.quoted false ws, here, before, tokens⟩ (Document.escaped c) =
      some ⟨.quoted false (w :: ws), here + byteLength (Document.escaped c), before, tokens⟩ := by
  unfold Document.escaped
  split
  · rename_i h
    refine ⟨.escaped c, rfl, ?_⟩
    rcases h with rfl | rfl <;> rfl
  · rename_i hne
    obtain ⟨hq, hb⟩ := not_or.mp hne
    split
    · rename_i h
      refine ⟨.plain c, rfl, ?_⟩
      rw [run_singleton, step_plain hq hb h]
      rfl
    · rename_i h
      refine ⟨.escaped c, rfl, ?_⟩
      have hc : c.toNat < 0x1000000 := by omega
      have ho : run ⟨.quoted false ws, here, before, tokens⟩ ['\\', 'u', '\x7b'] =
          some ⟨.code false ws 0 0, here + byteLength ['\\', 'u', '\x7b'], before, tokens⟩ := rfl
      have hl : 0 < (Nat.toDigits 16 c.toNat).length := Nat.length_toDigits_pos
      rw [run_append, run_append, ho, Option.bind_some, run_digits hc, Option.bind_some,
        run_singleton]
      simp [step, modeStep, codeStep, ofCode?_toNat, Nat.ne_of_gt hl, State.enter,
        byteLength_append, byteLength, Nat.add_assoc]

theorem run_escapedChars (ws : List Written) (here : Nat) (cs : List Char) :
    ∃ ws', Written.chars ws'.reverse = cs ∧
      run ⟨.quoted false ws, here, before, tokens⟩ (cs.flatMap Document.escaped) =
        some ⟨.quoted false (ws' ++ ws), here + byteLength (cs.flatMap Document.escaped), before,
          tokens⟩ := by
  induction cs generalizing here ws with
  | nil => exact ⟨[], rfl, rfl⟩
  | cons c cs ih =>
    obtain ⟨w, hw, hc⟩ := run_escaped ws here c
    obtain ⟨ws', hws, hr⟩ := ih (w :: ws) (here + byteLength (Document.escaped c))
    refine ⟨ws' ++ [w], ?_, ?_⟩
    · simp only [Written.chars, List.reverse_append, List.reverse_singleton] at hws ⊢
      simp [hw, hws]
    · rw [List.flatMap_cons, run_append, hc, Option.bind_some, hr, byteLength_append]
      simp [Nat.add_assoc]

theorem escaped_eq_cons (c : Char) :
    ∃ d ds, Document.escaped c = d :: ds ∧ d ≠ '"' := by
  unfold Document.escaped
  split
  · exact ⟨'\\', [c], rfl, by decide⟩
  · rename_i hne
    split
    · exact ⟨c, [], rfl, (not_or.mp hne).1⟩
    · exact ⟨'\\', _, rfl, by decide⟩

theorem newline_notMem_escaped (c : Char) : '\n' ∉ Document.escaped c := by
  unfold Document.escaped
  split
  · rename_i h
    rcases h with rfl | rfl <;> decide
  · split
    · rename_i h
      rw [List.mem_singleton]
      rintro rfl
      exact absurd h (by decide)
    · simp only [List.mem_append, List.mem_cons, List.not_mem_nil, or_false, not_or]
      refine ⟨⟨by decide, fun h => ?_⟩, by decide⟩
      obtain ⟨d, hd, he⟩ := exists_digit_of_mem_toDigits h
      have hn : Nat.digitChar d ≠ '\n' := by decide +revert
      exact hn he.symm

theorem newline_notMem_quote (text : String) : '\n' ∉ Document.quote text := by
  simp only [Document.quote, List.mem_append, List.mem_cons, List.mem_flatMap, List.not_mem_nil,
    or_false, not_or, not_exists, not_and]
  exact ⟨⟨by decide, fun c _ => newline_notMem_escaped c⟩, by decide⟩

/-- After the first quote the text goes on as it does later, but for a second quote. -/
theorem run_quoteOpen {cs : List Char} (hcs : cs ≠ []) :
    run ⟨.quoteOpen, here, before, tokens⟩ (cs.flatMap Document.escaped) =
      run ⟨.quoted false [], here, before, tokens⟩ (cs.flatMap Document.escaped) := by
  obtain ⟨c, cs, rfl⟩ := List.exists_cons_of_ne_nil hcs
  obtain ⟨d, ds, hd, hq⟩ := escaped_eq_cons c
  have hs : step ⟨.quoteOpen, here, before, tokens⟩ d =
      step ⟨.quoted false [], here, before, tokens⟩ d := by
    simp only [step, modeStep, if_neg hq]
    rfl
  rw [List.flatMap_cons, hd, List.cons_append, run, run, List.foldlM_cons, List.foldlM_cons, hs]

theorem scans_quote (text : String) {c : Char} (after : List Char) (hc : c ≠ '"') :
    Scans (Document.quote text) (.text text) (c :: after) := by
  intro here
  refine ⟨here, ?_⟩
  have ho : run (start here) ['"'] = some ⟨.quoteOpen, here + byteLength ['"'], here, []⟩ := rfl
  have hq : Document.quote text = ['"'] ++ (text.toList.flatMap Document.escaped ++ ['"']) := rfl
  rw [hq, List.append_assoc, run_append, ho, Option.bind_some]
  by_cases ht : text.toList = []
  -- two quotes are empty text only once the next character is seen
  · have he : step ⟨.quotePair, here + 2, here, []⟩ c =
        step ⟨.ground, here + 2, here, [⟨.text "", here⟩]⟩ c := by
      simp only [step, modeStep, if_neg hc]
      rfl
    obtain rfl : text = "" := by simpa using ht
    exact congrArg (· >>= fun s => run s after) he
  · obtain ⟨ws, hws, hr⟩ := run_escapedChars [] (here + byteLength ['"']) text.toList
    rw [List.append_assoc, run_append, run_quoteOpen ht, hr, Option.bind_some, run_append,
      run_singleton]
    simp [step, modeStep, quotedStep, State.emit, hws, byteLength_append, byteLength, Nat.add_assoc]

theorem groundStep_of_isWord {c : Char} (h : Character.isWord c = true) (s : State) :
    groundStep s c = some ({ s with start := s.here }.enter (.word [c])) := by
  have hp : Character.isPunctuation c = false := by
    simp only [Character.isWord, Bool.not_eq_true', Bool.or_eq_false_iff] at h
    exact h.2
  unfold groundStep
  split
  case h_11 =>
    simp only [Character.isWord, Bool.not_eq_true', Bool.or_eq_false_iff] at h
    simp [h.1.1.1, h.1.1.2, Character.isWord, h]
  all_goals exact absurd hp (by decide)

theorem run_word {cs ds : List Char} (h : ∀ c ∈ cs, Character.isWord c = true) :
    run ⟨.word ds, here, before, tokens⟩ cs =
      some ⟨.word (cs.reverse ++ ds), here + byteLength cs, before, tokens⟩ := by
  induction cs generalizing ds here with
  | nil => rfl
  | cons c cs ih =>
    have hs : step ⟨.word ds, here, before, tokens⟩ c =
        some ⟨.word (c :: ds), here + c.utf8Size, before, tokens⟩ := by
      simp [step, modeStep, h c List.mem_cons_self, State.enter]
    rw [run, List.foldlM_cons, hs]
    refine (ih fun d hd => h d (List.mem_cons_of_mem c hd)).trans ?_
    simp [byteLength, Nat.add_assoc]

theorem scans_name {name : String} {c : Char} (after : List Char)
    (hw : ∀ c ∈ name.toList, Character.isWord c = true) (hne : name ≠ "")
    (ht : Word.token? name.toList = some (.text name)) (hc : Character.isWord c = false) :
    Scans name.toList (.text name) (c :: after) := by
  intro here
  refine ⟨here, ?_⟩
  obtain ⟨d, ds, hd⟩ := List.exists_cons_of_ne_nil (show name.toList ≠ [] by simpa using hne)
  rw [hd] at hw ht ⊢
  have ho : step (start here) d = some ⟨.word [d], here + d.utf8Size, here, []⟩ := by
    rw [step, modeStep]
    simp only [start]
    rw [groundStep_of_isWord (hw d List.mem_cons_self)]
    rfl
  have he : step ⟨.word (d :: ds).reverse, here + byteLength (d :: ds), here, []⟩ c =
      step ⟨.ground, here + byteLength (d :: ds), here, [⟨.text name, here⟩]⟩ c := by
    simp only [step, modeStep, hc, List.reverse_reverse, ht]
    rfl
  have hr : run (start here) (d :: ds) =
      some ⟨.word (d :: ds).reverse, here + byteLength (d :: ds), here, []⟩ := by
    rw [run, List.foldlM_cons, ho]
    refine (run_word fun d hd => hw d (List.mem_cons_of_mem _ hd)).trans ?_
    simp [byteLength, Nat.add_assoc]
  rw [run_append, hr, Option.bind_some]
  exact congrArg (· >>= fun s => run s after) he

end Scanner

end EditHook
